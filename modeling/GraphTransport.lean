import GraphTransport.Comparison
import GraphTransport.Main
import GraphTransport.Proofs.Evolution.Agreement
import GraphTransport.Proofs.Evolution.Comparison
import GraphTransport.Proofs.Evolution.Conservation
import GraphTransport.Proofs.Evolution.DenseRates
import GraphTransport.Proofs.Evolution.Dependence
import GraphTransport.Proofs.Evolution.Entropy
import GraphTransport.Proofs.Evolution.GlobalBounds
import GraphTransport.Proofs.Evolution.Independence
import GraphTransport.Proofs.Evolution.Renumbering
import GraphTransport.Proofs.Evolution.Rescaling
import GraphTransport.Proofs.Evolution.SelfLoops
import GraphTransport.Proofs.Evolution.SizeChecks
import GraphTransport.Proofs.Evolution.Steepness
import GraphTransport.Proofs.Graph.CheckedConstruction
import GraphTransport.Proofs.Graph.DenseView
import GraphTransport.Proofs.Graph.StepRestriction
import GraphTransport.Proofs.Periodic.Rates
import GraphTransport.Proofs.RandomGraph.Conservation
import GraphTransport.Proofs.RungeKutta.ConvexSets
import GraphTransport.Proofs.RungeKutta.Denotation
import GraphTransport.Proofs.RungeKutta.History
import GraphTransport.Proofs.RungeKutta.Landing
import GraphTransport.Proofs.RungeKutta.LinearSystems
import GraphTransport.Proofs.Scheme.Antisymmetry
import GraphTransport.Proofs.Scheme.Interpolation
import GraphTransport.Proofs.Scheme.MassBalance
import GraphTransport.Proofs.Scheme.Reads
import GraphTransport.Proofs.Scheme.UniformStates
import GraphTransport.Proofs.Settings.Layers
import GraphTransport.Proofs.Simulation.InitialData
