import SatLab.Annealing.Run
import SatLab.Search.Backbone
import SatLab.Cnf.Dimacs
import SatLab.Random.Script
import SatLab.Json.Reader
import SatLab.Json.Printer
import SatLab.Cost.AlphaScan
import SatLab.Cost.Zones
import SatLab.Cost.Extrapolation
import SatLab.Landscape.EnergyTail
import SatLab.Landscape.Hysteresis
import SatLab.Landscape.Rigidity
import SatLab.Backbone.Pruning
import SatLab.Backbone.SizeTrend
import SatLab.Incidence.Correlation
import SatLab.Json.Overlay
import SatLab.Campaign.Worker
import SatLab.Campaign.Catalogue
import SatLab.Proofs.Search.Recursion
import SatLab.Proofs.Search.Backbone
import SatLab.Proofs.Search.Termination
import SatLab.Proofs.Cnf.Renaming
import SatLab.Proofs.Search.Renaming
import SatLab.Proofs.Annealing.Step
import SatLab.Proofs.Annealing.Run
import SatLab.Proofs.Cnf.Layout
import SatLab.Proofs.Campaign.Independence
import SatLab.Proofs.Campaign.Delivery
import SatLab.Proofs.Backbone.Stopped
import SatLab.Proofs.Campaign.Stopped
import SatLab.Proofs.Campaign.Cancellation
import SatLab.Proofs.Campaign.Waiting
import SatLab.Proofs.Campaign.Instances
import SatLab.Proofs.Search.Refinement
import SatLab.Proofs.Campaign.Overwriting
import SatLab.Proofs.Campaign.Quiet
import SatLab.Proofs.Trial.Report
import SatLab.Proofs.Campaign.Order
import SatLab.Proofs.Cnf.Reading
import SatLab.Proofs.Search.Origin
import SatLab.Proofs.Search.SecondModel
import SatLab.Proofs.Incidence.Correlation
import SatLab.Proofs.Campaign.Closing
import SatLab.Proofs.Cnf.Substitution
import SatLab.Proofs.Annealing.Move
import SatLab.Proofs.Trial.Seeds
import SatLab.Proofs.Cost.Account
import SatLab.Proofs.Annealing.EarlyEnd
import SatLab.Proofs.Cnf.EndMarker
import SatLab.Proofs.Annealing.Passage
import SatLab.Proofs.Incidence.Graph
import SatLab.Proofs.Search.Bounds
import SatLab.Proofs.Unbroken
import SatLab.Proofs.Cnf.Refusal
import SatLab.Proofs.Annealing.Trace
import SatLab.Proofs.Landscape.EnergyTail
import SatLab.Proofs.Backbone.Prediction
import SatLab.Proofs.Search.Partition
import SatLab.Proofs.Search.Counters
