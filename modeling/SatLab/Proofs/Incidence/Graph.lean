import Mathlib.Algebra.BigOperators.Group.List.Basic
import Mathlib.Algebra.Ring.Nat
import SatLab.Proofs.Incidence.Edges
/-!
The tables of a graph under construction. Every edge of a well-formed formula joins a node of a
variable with the node of a clause, so each of the two rows is there to be added to. In the end the
neighbours of a node are the other ends of its edges.
-/

set_option autoImplicit false
set_option relaxedAutoImplicit false

namespace SatLab.Incidence

/-- A table of neighbours for `count` nodes, in which every neighbour is a node. -/
structure Nodes (count : Nat) (adjacency : Array (Array Nat)) : Prop where
  size : adjacency.size = count
  neighbours : ∀ ns ∈ adjacency, ∀ k ∈ ns, k < count

/-- An edge over `numVars` variables whose ends are both among `count` nodes. -/
def Edge.Inside (numVars count : Nat) (e : Edge) : Prop :=
  (0 < e.var ∧ e.var ≤ numVars) ∧ numVars + e.clause < count

/-- The node at the other end of an edge over `n` variables. -/
def Edge.across? (n i : Nat) (e : Edge) : Option Nat :=
  if i = e.var - 1 then some (n + e.clause)
  else if i = n + e.clause then some (e.var - 1) else none

section Across

variable {n count i j : Nat} {d e : Edge}

private theorem Edge.Inside.across?_eq_some_iff (inside : e.Inside n count) :
    e.across? n i = some j ↔
    i = e.var - 1 ∧ j = n + e.clause ∨ j = e.var - 1 ∧ i = n + e.clause := by
  obtain ⟨⟨positive, bound⟩, -⟩ := inside
  rw [Edge.across?]
  split
  · rw [Option.some.injEq]
    omega
  · split
    · rw [Option.some.injEq]
      omega
    · simp only [reduceCtorEq, false_iff]
      omega

private theorem Edge.Inside.across?_ne (inside : d.Inside n count) (inside' : e.Inside n count)
    (apart : (d.var, d.clause) ≠ (e.var, e.clause)) (left : d.across? n i = some j) :
    e.across? n i ≠ some j := by
  intro right
  rw [inside.across?_eq_some_iff] at left
  rw [inside'.across?_eq_some_iff] at right
  obtain ⟨⟨positive, bound⟩, -⟩ := inside
  obtain ⟨⟨positive', bound'⟩, -⟩ := inside'
  apply apart
  rw [Prod.mk.injEq]
  omega

end Across

section Link

variable {n count : Nat} {adjacency linked : Array (Array Nat)}

private theorem sum_size_modify_push {rows : List (Array Nat)} {i : Nat} (k : Nat)
    (inside : i < rows.length) :
    ((rows.modify i (·.push k)).map Array.size).sum = (rows.map Array.size).sum + 1 := by
  induction rows generalizing i with
  | nil => cases inside
  | cons row rows ih =>
    cases i with
    | zero =>
      simp only [List.modify_zero_cons, List.map_cons, List.sum_cons, Array.size_push]
      omega
    | succ i =>
      have further := ih (Nat.lt_of_succ_lt_succ inside)
      simp only [List.modify_succ_cons, List.map_cons, List.sum_cons, further]
      omega

def entryCount (adjacency : Array (Array Nat)) : Nat := (adjacency.toList.map Array.size).sum

private theorem entryCount_modify_push {i : Nat} (k : Nat) (inside : i < adjacency.size) :
    entryCount (adjacency.modify i (·.push k)) = entryCount adjacency + 1 := by
  rw [entryCount, Array.toList_modify]
  exact sum_size_modify_push k inside

/-- The nodes that edges over `n` variables join with a node, edge by edge. -/
def neighbours (n : Nat) (edges : List Edge) (i : Nat) : List Nat :=
  edges.filterMap (Edge.across? n i)

private theorem entryCount_replicate_empty (count : Nat) :
    entryCount (Array.replicate count #[]) = 0 := by
  simp [entryCount]

section Neighbours

variable {edges : List Edge} {i j : Nat}

private theorem mem_neighbours_iff (inside : ∀ e ∈ edges, e.Inside n count) :
    j ∈ neighbours n edges i ↔ ∃ e ∈ edges,
      i = e.var - 1 ∧ j = n + e.clause ∨ j = e.var - 1 ∧ i = n + e.clause := by
  rw [neighbours, List.mem_filterMap]
  apply exists_congr
  intro e
  apply and_congr_right
  intro listed
  exact (inside e listed).across?_eq_some_iff

private theorem mem_neighbours_comm (inside : ∀ e ∈ edges, e.Inside n count) :
    j ∈ neighbours n edges i ↔ i ∈ neighbours n edges j := by
  simp only [mem_neighbours_iff inside, or_comm]

private theorem lt_of_mem_neighbours (inside : ∀ e ∈ edges, e.Inside n count)
    (mem : j ∈ neighbours n edges i) : i < count := by
  obtain ⟨e, listed, ends⟩ := (mem_neighbours_iff inside).mp mem
  obtain ⟨⟨positive, bound⟩, place⟩ := inside e listed
  omega

private theorem nodup_neighbours (inside : ∀ e ∈ edges, e.Inside n count)
    (once : edges.Pairwise fun d e => (d.var, d.clause) ≠ (e.var, e.clause)) (i : Nat) :
    (neighbours n edges i).Nodup := by
  refine List.pairwise_filterMap.mpr (once.imp_of_mem fun {d e} mem mem' apart => ?_)
  rintro j left j' right rfl
  exact (inside d mem).across?_ne (inside e mem') apart left right

end Neighbours

private theorem neighbours_cons (n : Nat) (e : Edge) (edges : List Edge) (i : Nat) :
    neighbours n (e :: edges) i = neighbours n [e] i ++ neighbours n edges i :=
  List.filterMap_append (l := [e])

/-- What linking edges makes of a table: every row gets the neighbours that the edges give to its
node, and every edge makes two entries. -/
structure Extends (n : Nat) (edges : List Edge) (adjacency linked : Array (Array Nat)) : Prop where
  size : linked.size = adjacency.size
  rows : ∀ i, linked[i]? = adjacency[i]?.map (· ++ (neighbours n edges i).toArray)
  count : entryCount linked = entryCount adjacency + 2 * edges.length

private theorem extends_of_link {e : Edge} (inside : e.Inside n adjacency.size) :
    ∃ linked, Graph.link n adjacency e = .ok linked ∧ Extends n [e] adjacency linked := by
  obtain ⟨⟨positive, bound⟩, place⟩ := inside
  have varNode : e.var - 1 < adjacency.size := by omega
  rw [Graph.link, if_pos ⟨positive, by omega⟩]
  refine ⟨_, rfl, by simp, fun i => ?_, ?_⟩
  · rw [Array.getElem?_modify, Array.getElem?_modify, neighbours, List.filterMap_cons,
      List.filterMap_nil, Edge.across?]
    -- The two ends are different nodes, so no row is added to twice.
    by_cases left : e.var - 1 = i
    · have apart : n + e.clause ≠ i := by omega
      simp [left, apart]
    · by_cases right : n + e.clause = i
      · simp [left, right, Ne.symm left]
      · simp [left, right, Ne.symm left, Ne.symm right]
  · rw [entryCount_modify_push _ (by rwa [Array.size_modify]), entryCount_modify_push _ varNode]
    rfl

private theorem extends_of_foldlM_link {edges : List Edge}
    (inside : ∀ e ∈ edges, e.Inside n adjacency.size) :
    ∃ linked, edges.foldlM (Graph.link n) adjacency = .ok linked ∧
      Extends n edges adjacency linked := by
  induction edges generalizing adjacency with
  | nil => exact ⟨adjacency, rfl, rfl, fun i => by simp [neighbours], rfl⟩
  | cons e edges ih =>
    obtain ⟨here, later⟩ := List.forall_mem_cons.mp inside
    obtain ⟨next, linked, first⟩ := extends_of_link here
    obtain ⟨last, folded, rest⟩ := ih (first.size.symm ▸ later)
    refine ⟨last, ?_, rest.size.trans first.size, fun i => ?_, ?_⟩
    · rw [List.foldlM_cons, linked, ok_bind]
      exact folded
    · rw [rest.rows, first.rows, Option.map_map, neighbours_cons n e edges]
      congr 1
      funext row
      simp
    · rw [rest.count, first.count]
      simp only [List.length_cons, List.length_nil]
      omega

section Blank

variable {edges : List Edge}

private theorem row_iff_of_extends {i : Nat} {ns : Array Nat}
    (extended : Extends n edges (Array.replicate count #[]) linked) :
    linked[i]? = some ns ↔ i < count ∧ ns = (neighbours n edges i).toArray := by
  rw [extended.rows, Array.getElem?_replicate]
  split <;> simp_all [eq_comm]

private theorem mem_row_iff_of_extends {i j : Nat} (inside : ∀ e ∈ edges, e.Inside n count)
    (extended : Extends n edges (Array.replicate count #[]) linked) :
    (∃ ns, linked[i]? = some ns ∧ j ∈ ns) ↔ ∃ e ∈ edges,
      i = e.var - 1 ∧ j = n + e.clause ∨ j = e.var - 1 ∧ i = n + e.clause := by
  rw [← mem_neighbours_iff inside]
  constructor
  · rintro ⟨ns, present, listed⟩
    obtain ⟨-, rfl⟩ := (row_iff_of_extends extended).mp present
    exact List.mem_toArray.mp listed
  · intro listed
    have present := (row_iff_of_extends extended).mpr ⟨lt_of_mem_neighbours inside listed, rfl⟩
    exact ⟨_, present, List.mem_toArray.mpr listed⟩

end Blank

end Link

/-- A graph whose edges and neighbours are all within the tables of the formula. -/
structure Graph.Within (f : Formula) (g : Graph) : Prop where
  edges : ∀ e ∈ g.edges, e.Inside f.numVars (f.numVars + f.size)
  nodes : Nodes (f.numVars + f.size) g.adjacency

private theorem inside_of_mem_edgesFrom {f : Formula} (wellFormed : f.WellFormed) :
    ∀ e ∈ edgesFrom 0 f.clauses, e.Inside f.numVars (f.numVars + f.size) := by
  intro e member
  obtain ⟨c, found, l, occurs, same⟩ := exists_mem_edgesFrom_iff.mp ⟨e, member, rfl, rfl⟩
  obtain ⟨valid, bound⟩ := wellFormed c (List.mem_of_getElem? found) l occurs
  have place : e.clause < f.size := (List.getElem?_eq_some_iff.mp found).1
  exact ⟨⟨same ▸ valid.var_pos, same ▸ bound⟩, by omega⟩

private theorem extends_of_ofFormula {f : Formula} (wellFormed : f.WellFormed) : ∃ adjacency,
    Graph.ofFormula f = .ok ⟨f.numVars, f.size, edgesFrom 0 f.clauses, adjacency⟩ ∧
      Extends f.numVars (edgesFrom 0 f.clauses) (Array.replicate (f.numVars + f.size) #[])
        adjacency := by
  have room : ∀ e ∈ edgesFrom 0 f.clauses,
      e.Inside f.numVars (Array.replicate (f.numVars + f.size) (#[] : Array Nat)).size := by
    rw [Array.size_replicate]
    exact inside_of_mem_edgesFrom wellFormed
  obtain ⟨adjacency, folded, extended⟩ := extends_of_foldlM_link room
  refine ⟨adjacency, ?_, extended⟩
  rw [Graph.ofFormula, folded]
  rfl

theorem ofFormula_within {f : Formula} (wellFormed : f.WellFormed) :
    ∃ g, Graph.ofFormula f = .ok g ∧ g.Within f := by
  have inside := inside_of_mem_edgesFrom wellFormed
  obtain ⟨adjacency, built, extended⟩ := extends_of_ofFormula wellFormed
  refine ⟨_, built, inside, extended.size.trans Array.size_replicate, fun ns mem j listed => ?_⟩
  obtain ⟨i, present⟩ := Array.mem_iff_getElem?.mp mem
  obtain ⟨-, rfl⟩ := (row_iff_of_extends extended).mp present
  have back := (mem_neighbours_comm inside).mp (List.mem_toArray.mp listed)
  exact lt_of_mem_neighbours inside back

namespace Graph

def Adjacent (g : Graph) (i j : Nat) : Prop := ∃ ns, g.adjacency[i]? = some ns ∧ j ∈ ns

/-- A graph of the occurrences of variables in clauses: one edge for each variable and each clause
in which it occurs, in the order of the text, with the signs of all occurrences; and rows of
neighbours that link just the ends of these edges. -/
structure Faithful (f : Formula) (g : Graph) : Prop where
  numVars : g.numVars = f.numVars
  numClauses : g.numClauses = f.size
  joined : ∀ v k, (∃ e ∈ g.edges, e.var = v ∧ e.clause = k) ↔
    ∃ c, f.clauses[k]? = some c ∧ ∃ l ∈ c.literals, l.var = v
  once : (g.edges.map fun e => (e.var, e.clause)).Nodup
  polarity : ∀ e ∈ g.edges, ∃ c, f.clauses[e.clause]? = some c ∧
    Occurs c.literals e.var e.polarity
  order : g.edges.Pairwise (Edge.Before f.clauses)
  size : g.adjacency.size = g.numNodes
  distinct : ∀ ns ∈ g.adjacency, ns.toList.Nodup
  linked : ∀ i j, g.Adjacent i j ↔ ∃ e ∈ g.edges,
    i = e.var - 1 ∧ j = g.numVars + e.clause ∨ j = e.var - 1 ∧ i = g.numVars + e.clause
  symmetric : ∀ i j, g.Adjacent i j → g.Adjacent j i
  degrees : g.degrees.sum = 2 * g.edges.length

/-- The graph of a well-formed formula is faithful to it. -/
theorem ofFormula_faithful {f : Formula} (wellFormed : f.WellFormed) :
    ∃ g, ofFormula f = .ok g ∧ g.Faithful f := by
  have inside := inside_of_mem_edgesFrom wellFormed
  have order := pairwise_edgesFrom f.clauses
  have once := order.imp Edge.Before.ne
  obtain ⟨adjacency, built, extended⟩ := extends_of_ofFormula wellFormed
  have linked (i j : Nat) := mem_row_iff_of_extends (i := i) (j := j) inside extended
  refine ⟨_, built, ?_⟩
  constructor
  case numVars => rfl
  case numClauses => rfl
  case joined =>
    intro v k
    exact exists_mem_edgesFrom_iff
  case once => exact List.pairwise_map.mpr once
  case polarity =>
    rintro ⟨v, k, p⟩ mem
    exact mem_edgesFrom_iff.mp mem
  case order => exact order
  case size => exact extended.size.trans Array.size_replicate
  case distinct =>
    intro ns mem
    obtain ⟨i, present⟩ := Array.mem_iff_getElem?.mp mem
    obtain ⟨-, rfl⟩ := (row_iff_of_extends extended).mp present
    exact nodup_neighbours inside once i
  case linked => exact linked
  case symmetric =>
    intro i j there
    obtain ⟨e, mem, ends⟩ := (linked i j).mp there
    exact (linked j i).mpr ⟨e, mem, ends.symm⟩
  case degrees =>
    refine extended.count.trans ?_
    rw [entryCount_replicate_empty, Nat.zero_add]

/-- A clause with a variable of both signs, an empty one, and one that repeats a literal. -/
def repeating : Formula :=
  ⟨3, [⟨[⟨2⟩, ⟨-1⟩, ⟨-2⟩, ⟨2⟩]⟩, ⟨[]⟩, ⟨[⟨-3⟩, ⟨2⟩, ⟨-3⟩]⟩]⟩

/-- Its variables are met in another order than they are numbered, and each is joined once with each
of its clauses. -/
theorem repeating_ofFormula_faithful : repeating.WellFormed ∧ ∃ g, ofFormula repeating = .ok g ∧
    g.edges = [⟨2, 0, .mixed⟩, ⟨1, 0, .negative⟩, ⟨3, 2, .negative⟩, ⟨2, 2, .positive⟩] ∧
    g.adjacency = #[#[3], #[3, 5], #[5], #[1, 0], #[], #[2, 1]] ∧ g.Faithful repeating := by
  have wellFormed : repeating.WellFormed := by decide
  obtain ⟨g, built, faithful⟩ := ofFormula_faithful wellFormed
  have same : ofFormula repeating = .ok ⟨3, 3,
      [⟨2, 0, .mixed⟩, ⟨1, 0, .negative⟩, ⟨3, 2, .negative⟩, ⟨2, 2, .positive⟩],
      #[#[3], #[3, 5], #[5], #[1, 0], #[], #[2, 1]]⟩ := ok_of_toOption (by decide)
  cases same.symm.trans built
  exact ⟨wellFormed, _, same, rfl, rfl, faithful⟩

end Graph

end SatLab.Incidence
