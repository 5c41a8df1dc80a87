import LittleComputer.CommandLine.Host
import LittleComputer.Console.Faulty
import LittleComputer.Console.Scripted
import LittleComputer.Machine.Inspection
import LittleComputer.Machine.Command
import LittleComputer.Main
import LittleComputer.Proofs.Run
import LittleComputer.Proofs.NumberMachine
import LittleComputer.Proofs.Limit
import LittleComputer.Proofs.ServiceCall
import LittleComputer.Proofs.FaultyConsole
import LittleComputer.Proofs.TwoRuns
import LittleComputer.Proofs.InstructionWord
import LittleComputer.Proofs.Split
import LittleComputer.Proofs.Halting
import LittleComputer.Proofs.ScriptedRun
import LittleComputer.Proofs.Budget
import LittleComputer.Proofs.Flushing
import LittleComputer.Proofs.AssemblyReading
import LittleComputer.Proofs.FlagHistory
import LittleComputer.Proofs.MemoryHistory
import LittleComputer.Proofs.ImageLoading
import LittleComputer.Proofs.BoundedOutput
import LittleComputer.Proofs.DumpReading
import LittleComputer.Proofs.SessionStatus
import LittleComputer.Proofs.UnreadInput
import LittleComputer.Proofs.UnreadCells
import LittleComputer.Proofs.InRange
import LittleComputer.Proofs.RunLog
import LittleComputer.Proofs.Saving
import LittleComputer.Proofs.CutDump
import LittleComputer.Proofs.PrintedString
import LittleComputer.Proofs.ListingReading
import LittleComputer.Proofs.ImageReading
