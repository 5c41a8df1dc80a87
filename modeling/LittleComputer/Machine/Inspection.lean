import LittleComputer.Inspection
import LittleComputer.Machine.Basic

/-!
# Inspecting the machine

The inspection texts of registers, memories and machines. A memory shows how many of its cells
are occupied and how many addresses there are; a machine leaves its memory out.
-/

namespace LittleComputer

instance : Inspect Flag := ⟨Flag.name⟩

instance : Inspect RunState := ⟨RunState.name⟩

instance : Inspect Registers where
  inspect regs := Inspect.record "Registers"
    [("r", inspect regs.general.toList), ("pc", inspect regs.pc), ("cond", inspect regs.cond)]

instance : Inspect Memory where
  inspect mem := Inspect.record "Memory"
    [("non_zero_cells", inspect mem.occupied.length), ("total_cells", inspect Memory.size)]

instance : Inspect Machine where
  inspect m := Inspect.record "Cpu"
    [("state", inspect m.state), ("cycles", inspect m.cycles), ("regs", inspect m.regs)]

end LittleComputer
