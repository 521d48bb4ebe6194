/-!
Blank characters, and the division of text into lines and words. The table holds the
White_Space property of Unicode, which has been the same 25 characters since version 6.3.
-/

set_option autoImplicit false
set_option relaxedAutoImplicit false

namespace SatLab.Text

def blankRanges : List (Nat × Nat) :=
  [(0x09, 0x0D), (0x20, 0x20), (0x85, 0x85), (0xA0, 0xA0), (0x1680, 0x1680),
   (0x2000, 0x200A), (0x2028, 0x2029), (0x202F, 0x202F), (0x205F, 0x205F), (0x3000, 0x3000)]

/-- Whether the character separates words. -/
def isBlank (c : Char) : Bool :=
  blankRanges.any fun r => r.1 ≤ c.toNat && c.toNat ≤ r.2

def trim (s : List Char) : List Char :=
  ((s.dropWhile isBlank).reverse.dropWhile isBlank).reverse

/-- Divides text after each line feed; a final empty line is none. -/
def lines : List Char → List (List Char)
  | [] => []
  | '\n' :: s => [] :: lines s
  | c :: s => match lines s with
    | [] => [[c]]
    | l :: ls => (c :: l) :: ls

/-- The maximal runs without blanks, in order. -/
def words : List Char → List (List Char)
  | [] => []
  | c :: s =>
    if isBlank c then words s
    else match s, words s with
      | [], _ => [[c]]
      | d :: _, ws =>
        if isBlank d then [c] :: ws
        else match ws with
          | [] => [[c]]
          | w :: ws => (c :: w) :: ws

theorem not_isBlank_of_mem_words {s w : List Char} (h : w ∈ words s) :
    w ≠ [] ∧ ∀ c ∈ w, isBlank c = false := by
  fun_induction words s generalizing w with
  | case1 => simp at h
  | case2 c s hc ih => exact ih h
  | case3 c hc ih => simp_all
  | case4 c hc d s hd ih =>
    rcases List.mem_cons.mp h with rfl | h
    · simp [hc]
    · exact ih h
  | case5 => simp_all
  | case6 c hc d s hd w' ws e ih =>
    simp only [e, List.mem_cons, forall_eq_or_imp] at ih h
    rcases h with rfl | h
    · simpa [hc] using ih.1.2
    · exact ih.2 w h

theorem isBlank_newline : isBlank '\n' = true := by decide

end SatLab.Text
