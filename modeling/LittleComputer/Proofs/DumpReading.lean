import LittleComputer.Dump
import LittleComputer.Proofs.AssemblyReading
import LittleComputer.Proofs.BoundedOutput
import LittleComputer.Proofs.ExchangeReading
import LittleComputer.Proofs.JsonReading
import LittleComputer.Proofs.MemoryHistory

/-!
# Dumps read back

A dump is read back as what it shows: the stage, the occupied cells, the registers unless the
program was only loaded, and in JSON also the count of instructions. A full memory is filled
again from its occupied cells. So dumps are equal just where all that they show is equal, and
machines that differ in it are told apart.
-/

namespace LittleComputer

namespace Dump

open Exchange

/-- The text of a dump. -/
def text (m : Machine) (stage : Stage) (format : Format) : String :=
  String.join (pieces m stage format)

/-- The bytes of a dump, as they are taken by a writer without a bound. -/
def bytes (m : Machine) (stage : Stage) (format : Format) : ByteArray :=
  ((write m stage format).run.interp BoundedWriter.handler ⟨.empty, none⟩).2.taken

theorem interp_write (m : Machine) (stage : Stage) (format : Format) :
    (write m stage format).run.interp BoundedWriter.handler ⟨.empty, none⟩ =
      (.ok (), ⟨(text m stage format).toUTF8, none⟩) := by
  rw [BoundedWriter.handler_eq, write, BoundedWriter.interp_putAll, BoundedWriter.put,
    ByteArray.empty_append]
  rfl

theorem bytes_eq (m : Machine) (stage : Stage) (format : Format) :
    bytes m stage format = (text m stage format).toUTF8 := by
  rw [bytes, interp_write]

theorem bytes_eq_iff {m m' : Machine} {stage stage' : Stage} {format format' : Format} :
    bytes m stage format = bytes m' stage' format' ↔
      text m stage format = text m' stage' format' := by
  rw [bytes_eq, bytes_eq]
  exact String.toByteArray_inj

/-! ## What a dump shows -/

def Stage.all : List Stage := [.afterLoad, .afterHalt, .stopped]

/-- What a dump shows in either format. -/
structure Listing where
  stage : Stage
  regs : Option Registers
  cells : List (Word × Word)

/-- What a dump shows in JSON. -/
structure Report extends Listing where
  cycles : UInt64

def listing (m : Machine) (stage : Stage) : Listing where
  stage := stage
  regs := if stage = .afterLoad then none else some m.regs
  cells := m.mem.occupied

def report (m : Machine) (stage : Stage) : Report := ⟨listing m stage, m.cycles⟩

/-- What a listing tells of a machine. -/
structure Listing.Shows (shown : Listing) (m : Machine) (stage : Stage) : Prop where
  named : shown.stage = stage
  /-- The registers are there, unless the program was only loaded. -/
  regs : shown.regs = if stage = .afterLoad then none else some m.regs
  /-- The cells are those that do not hold zero, -/
  cells : ∀ address value,
    (address, value) ∈ shown.cells ↔ value ≠ 0 ∧ m.mem.read address = value
  /-- each once and from the lowest address to the highest, -/
  ordered : shown.cells.Pairwise fun a b => a.1 < b.1
  /-- and a fresh memory is filled from them. -/
  refilled : Memory.initial.after (shown.cells.map .ofCell) = m.mem

section
variable {m m' : Machine} {stage stage' : Stage}

theorem shows_listing (full : m.mem.cells.size = Memory.size) :
    (listing m stage).Shows m stage where
  named := rfl
  regs := rfl
  cells := Memory.mem_occupied_iff full
  ordered := Memory.pairwise_occupied full
  refilled := Memory.after_listing full (List.Perm.refl _)

/-- Listings are equal just where all that they show is equal. -/
theorem listing_eq_iff (full : m.mem.cells.size = Memory.size)
    (full' : m'.mem.cells.size = Memory.size) :
    listing m stage = listing m' stage' ↔
      stage = stage' ∧ (∀ address, m.mem.read address = m'.mem.read address) ∧
        (stage ≠ .afterLoad → m.regs = m'.regs) := by
  constructor
  · intro same
    obtain rfl : stage = stage' := congrArg Listing.stage same
    have mem : m.mem = m'.mem :=
      Memory.eq_of_occupied_eq full' full (congrArg Listing.cells same)
    refine ⟨rfl, fun address => congrArg (·.read address) mem, fun shown => ?_⟩
    have regs := congrArg Listing.regs same
    simpa only [listing, if_neg shown, Option.some.injEq] using regs
  · rintro ⟨rfl, cells, regs⟩
    have mem : m.mem = m'.mem := Memory.ext_read full full' cells
    rw [listing, listing, mem]
    by_cases loaded : stage = .afterLoad
    · rw [if_pos loaded, if_pos loaded]
    · rw [if_neg loaded, if_neg loaded, regs loaded]

end

/-! ## Text -/

/-- The lines of a title without their ends. -/
def titleRows (title : String) : List String :=
  let rule := String.ofList (List.replicate title.length '-')
  [rule, title, rule]

/-- The line of an occupied cell without its end. -/
def cellRow (cell : Word × Word) : String :=
  "x" ++ Numeral.hexWord cell.1 ++ ": x" ++ Numeral.hexWord cell.2 ++ "  " ++
    Assembly.ofWord cell.2

/-- The line of a register without its end. -/
def registerRow (name : String) (value : Word) : String :=
  let label := name ++ ":"
  label ++ String.ofList (List.replicate (6 - label.length) ' ') ++ "x" ++ Numeral.hexWord value ++
    "  (" ++ Numeral.decimal value.signed ++ ")"

def flagRow (flag : Flag) : String := "COND: " ++ String.singleton flag.letter

def registerRows (regs : Registers) : List String :=
  (Registers.names.zip (regs.general.toList ++ [regs.pc])).map
    (fun (name, value) => registerRow name value) ++ [flagRow regs.cond]

/-- The lines of the registers with their title, if they are shown. -/
def registerSection (shown : Listing) : List String :=
  match shown.stage.registersTitle?, shown.regs with
  | some title, some regs => titleRows title ++ registerRows regs
  | _, _ => []

/-- The lines of a dump without their ends. -/
def rows (shown : Listing) : List String :=
  titleRows shown.stage.memoryTitle ++ shown.cells.map cellRow ++ registerSection shown

theorem registerLine_eq (name : String) (value : Word) :
    registerLine name value = registerRow name value ++ "\n" := by
  have behind : ")\n" = ")" ++ "\n" := rfl
  rw [registerLine, registerRow, behind, ← String.append_assoc]

theorem registerLines_eq (regs : Registers) :
    registerLines regs = (registerRows regs).map (· ++ "\n") := by
  simp only [registerLines, registerRows, List.map_append, List.map_map, registerLine_eq]
  rfl

theorem lines_eq (m : Machine) (stage : Stage) :
    lines m stage = (rows (listing m stage)).map (· ++ "\n") := by
  have cells : memoryLines m.mem = (m.mem.occupied.map cellRow).map (· ++ "\n") := by
    rw [memoryLines, List.map_map]
    rfl
  have registers (title : String) : titleLines title ++ registerLines m.regs =
      (titleRows title ++ registerRows m.regs).map (· ++ "\n") := by
    rw [List.map_append, ← registerLines_eq]
    rfl
  rw [lines, rows, List.map_append, List.map_append, listing, ← cells]
  cases stage with
  | afterLoad => rfl
  | afterHalt => exact congrArg _ (registers _)
  | stopped => exact congrArg _ (registers _)

/-! No row holds the end of a line. -/

theorem unbroken_titleRows {title : String} (h : Text.Unbroken title) :
    ∀ row ∈ titleRows title, Text.Unbroken row := by
  have rule : Text.Unbroken (String.ofList (List.replicate title.length '-')) :=
    Text.unbroken_replicate (by decide) _
  simp only [titleRows, List.forall_mem_cons]
  exact ⟨rule, h, rule, nofun⟩

theorem unbroken_cellRow (cell : Word × Word) : Text.Unbroken (cellRow cell) := by
  have address := (Assembly.isWord_hexWord cell.1).unbroken
  have value := (Assembly.isWord_hexWord cell.2).unbroken
  have meaning : Text.Unbroken (Assembly.ofWord cell.2) := Instruction.unbroken_assembly _
  simp only [cellRow, Text.unbroken_append_iff]
  exact ⟨⟨⟨⟨⟨by decide, address⟩, by decide⟩, value⟩, by decide⟩, meaning⟩

theorem unbroken_registerRow {name : String} (h : Text.Unbroken name) (value : Word) :
    Text.Unbroken (registerRow name value) := by
  have word := (Assembly.isWord_hexWord value).unbroken
  have number := (Assembly.isWord_decimal value.signed).unbroken
  have blanks (count : Nat) : Text.Unbroken (String.ofList (List.replicate count ' ')) :=
    Text.unbroken_replicate (by decide) count
  simp only [registerRow, Text.unbroken_append_iff]
  exact ⟨⟨⟨⟨⟨⟨⟨h, by decide⟩, blanks _⟩, by decide⟩, word⟩, by decide⟩, number⟩, by decide⟩

theorem unbroken_registerRows (regs : Registers) :
    ∀ row ∈ registerRows regs, Text.Unbroken row := by
  have names : ∀ name ∈ Registers.names, Text.Unbroken name := by decide
  rw [registerRows, List.forall_mem_append]
  constructor
  · intro row mem
    obtain ⟨⟨name, value⟩, pair, rfl⟩ := List.mem_map.mp mem
    exact unbroken_registerRow (names name (List.of_mem_zip pair).1) value
  · rw [List.forall_mem_singleton]
    cases regs.cond <;> decide

theorem unbroken_rows (shown : Listing) : ∀ row ∈ rows shown, Text.Unbroken row := by
  have memory : Text.Unbroken shown.stage.memoryTitle := by
    cases shown.stage <;> decide
  have registers : ∀ title ∈ shown.stage.registersTitle?, Text.Unbroken title := by
    cases shown.stage <;> decide
  simp only [rows, List.forall_mem_append, List.forall_mem_map]
  refine ⟨⟨unbroken_titleRows memory, fun cell _ => unbroken_cellRow cell⟩, ?_⟩
  rw [registerSection]
  split
  · rename_i title regs titled _
    rw [List.forall_mem_append]
    exact ⟨unbroken_titleRows (registers title titled), unbroken_registerRows regs⟩
  · nofun

/-! The rows are read one by one. -/

/-- The word in four columns of a row. -/
def wordAt? (column : Nat) (row : String) : Option Word :=
  Numeral.ofHexWord? ((row.toList.drop column).take 4)

def isCellRow (row : String) : Bool := row.toList.head? == some 'x'

/-- The address that a row begins with, and the value at a column of it. -/
def cellOfRow? (column : Nat) (row : String) : Option (Word × Word) := do
  return (← wordAt? 1 row, ← wordAt? column row)

def flagOfRow? (row : String) : Option Flag :=
  Flag.all.find? fun flag => row.toList.drop 6 == [flag.letter]

def registersOfRows? (rows : List String) : Option Registers := do
  let words ← rows.dropLast.mapM (wordAt? 7)
  let general := words.dropLast.toArray
  let pc ← words.getLast?
  let cond ← rows.getLast? >>= flagOfRow?
  if h : general.size = 8 then some ⟨⟨general, h⟩, pc, cond⟩ else none

def registersOfSection? : List String → Option (Option Registers)
  | [] => some none
  | _ :: _ :: _ :: rows => (registersOfRows? rows).map some
  | _ => none

/-- The listing in some rows. -/
def Listing.ofRows? : List String → Option Listing
  | _ :: title :: _ :: rows => do
    let stage ← named? Stage.all Stage.memoryTitle title
    let regs ← registersOfSection? (rows.dropWhile isCellRow)
    let cells ← (rows.takeWhile isCellRow).mapM (cellOfRow? 8)
    return ⟨stage, regs, cells⟩
  | _ => none

/-- The listing in a text. -/
def Listing.ofText? (text : String) : Option Listing := ofRows? (Text.lines text)

theorem wordAt?_of_toList {column : Nat} {row : String} {before behind : List Char} {w : Word}
    (h : row.toList = before ++ ((Numeral.hexWord w).toList ++ behind))
    (place : before.length = column) : wordAt? column row = some w := by
  rw [wordAt?, h, ← place, List.drop_left, ← Numeral.length_hexWord w, List.take_left,
    Numeral.ofHexWord?_hexWord]

/-- A row is read if its value stands where it is looked for. -/
theorem cellOfRow?_of_toList {column : Nat} {row : String} {between behind : List Char}
    {address value : Word}
    (h : row.toList = ['x'] ++ ((Numeral.hexWord address).toList ++ (between ++
      ((Numeral.hexWord value).toList ++ behind))))
    (place : 5 + between.length = column) : cellOfRow? column row = some (address, value) := by
  have first : wordAt? 1 row = some address := wordAt?_of_toList h rfl
  have second : wordAt? column row = some value := by
    have before : (['x'] ++ (Numeral.hexWord address).toList ++ between).length = column := by
      simp only [List.length_append, List.length_singleton, Numeral.length_hexWord, ← place]
    rw [← List.append_assoc, ← List.append_assoc] at h
    exact wordAt?_of_toList h before
  simp [cellOfRow?, first, second]

theorem cellOfRow?_cellRow (cell : Word × Word) : cellOfRow? 8 (cellRow cell) = some cell := by
  have spelled : (cellRow cell).toList = ['x'] ++ ((Numeral.hexWord cell.1).toList ++
      ([':', ' ', 'x'] ++ ((Numeral.hexWord cell.2).toList ++
        (' ' :: ' ' :: (Assembly.ofWord cell.2).toList)))) := by
    simp [cellRow]
  exact cellOfRow?_of_toList spelled rfl

theorem wordAt?_registerRow {name : String} (short : name.length < 6) (value : Word) :
    wordAt? 7 (registerRow name value) = some value := by
  have spelled : (registerRow name value).toList =
      (name.toList ++ [':'] ++ List.replicate (6 - (name ++ ":").length) ' ' ++ ['x']) ++
        ((Numeral.hexWord value).toList ++
          ("  (" ++ Numeral.decimal value.signed ++ ")").toList) := by
    simp [registerRow]
  refine wordAt?_of_toList spelled ?_
  have colon : ":".length = 1 := rfl
  simp only [List.length_append, List.length_replicate, String.length_toList, String.length_append,
    colon, List.length_singleton]
  omega

theorem flagOfRow?_flagRow (flag : Flag) : flagOfRow? (flagRow flag) = some flag := by
  cases flag <;> decide

theorem registersOfRows?_registerRows (regs : Registers) :
    registersOfRows? (registerRows regs) = some regs := by
  have short : ∀ name ∈ Registers.names, name.length < 6 := by decide
  have length : regs.general.toList.length = 8 := Vector.length_toList
  have enough : (regs.general.toList ++ [regs.pc]).length ≤ Registers.names.length := by
    rw [List.length_append, length, List.length_singleton]
    decide
  have words : (registerRows regs).dropLast.mapM (wordAt? 7) =
      some (regs.general.toList ++ [regs.pc]) := by
    rw [registerRows, List.dropLast_concat, List.mapM_map, mapM_of_forall Prod.snd,
      List.map_snd_zip enough]
    rintro ⟨name, value⟩ pair
    exact wordAt?_registerRow (short name (List.of_mem_zip pair).1) value
  have last : (registerRows regs).getLast? = some (flagRow regs.cond) := by
    rw [registerRows, List.getLast?_concat]
  rw [registersOfRows?, words, last]
  simp only [Option.bind_eq_bind, Option.bind_some, List.getLast?_concat, flagOfRow?_flagRow,
    List.dropLast_concat]
  exact dif_pos length

theorem registersOfSection?_registerSection (m : Machine) (stage : Stage) :
    registersOfSection? (registerSection (listing m stage)) = some (listing m stage).regs := by
  have shown := congrArg (Option.map some) (registersOfRows?_registerRows m.regs)
  cases stage with
  | afterLoad => rfl
  | afterHalt => exact shown
  | stopped => exact shown

theorem ofRows?_rows (m : Machine) (stage : Stage) :
    Listing.ofRows? (rows (listing m stage)) = some (listing m stage) := by
  have title : named? Stage.all Stage.memoryTitle stage.memoryTitle = some stage := by
    cases stage <;> decide
  have isCell : ∀ row ∈ m.mem.occupied.map cellRow, isCellRow row = true := by
    rw [List.forall_mem_map]
    intro cell _
    simp [isCellRow, cellRow]
  have ended : ∀ row ∈ (registerSection (listing m stage)).head?, isCellRow row = false := by
    cases stage with
    | afterLoad => nofun
    | afterHalt =>
      rintro _ ⟨⟩
      decide
    | stopped =>
      rintro _ ⟨⟩
      decide
  have taken := Json.takeWhile_append_of_head isCell ended
  have dropped : (m.mem.occupied.map cellRow ++ registerSection (listing m stage)).dropWhile
      isCellRow = registerSection (listing m stage) := by
    have parts := List.takeWhile_append_dropWhile (p := isCellRow)
      (l := m.mem.occupied.map cellRow ++ registerSection (listing m stage))
    rw [taken] at parts
    exact List.append_cancel_left parts
  have cells := mapM_map cellOfRow?_cellRow m.mem.occupied
  have laid : rows (listing m stage) = _ :: stage.memoryTitle :: _ ::
      (m.mem.occupied.map cellRow ++ registerSection (listing m stage)) := rfl
  rw [laid, Listing.ofRows?, title, taken, dropped, cells, registersOfSection?_registerSection]
  rfl

/-- The text of a dump is read as its listing. -/
theorem ofText?_text (m : Machine) (stage : Stage) :
    Listing.ofText? (text m stage .text) = some (listing m stage) := by
  rw [Listing.ofText?, text, pieces, lines_eq, Text.lines_join (unbroken_rows _), ofRows?_rows]

/-! ## JSON -/

def cellOfFields? : List Json → Option (Word × Word)
  | [address, value] => do return (← ofJson? address, ← ofJson? value)
  | _ => none

def cellOfJson? (json : Json) : Option (Word × Word) :=
  json.members? ["address", "value"] >>= cellOfFields?

def cellsOfJson? : Json → Option (List (Word × Word))
  | .list items => items.mapM cellOfJson?
  | _ => none

/-- Whether an object has a member of some name. -/
def hasMember (name : String) : Json → Bool
  | .object members => members.any fun m => m.1 == some name
  | _ => false

def registersOfFields? : List Json → Option Registers
  | [regs] => ofJson? regs
  | _ => none

/-- The registers of an object, if it has a member for them. -/
def registersOfJson? (json : Json) : Option (Option Registers) :=
  if hasMember "registers" json then
    (json.members? ["registers"] >>= registersOfFields?).map some
  else some none

def Report.ofFields? (regs : Option Registers) : List Json → Option Report
  | [stage, cycles, memory] => do
    let stage ← ofName? Stage.all Stage.name stage
    let cells ← cellsOfJson? memory
    return ⟨⟨stage, regs, cells⟩, ← ofJson? cycles⟩
  | _ => none

/-- The report in a JSON value. -/
def Report.ofJson? (json : Json) : Option Report := do
  let regs ← registersOfJson? json
  let fields ← json.members? ["stage", "cycles", "memory"]
  ofFields? regs fields

theorem cellOfJson?_cellJson (cell : Word × Word) : cellOfJson? (cellJson cell) = some cell := by
  have names : ["address", "value"].Nodup := by decide
  have members : (cellJson cell).members? ["address", "value"] =
      some [toJson cell.1, toJson cell.2] :=
    Json.members?_record [("address", _), ("value", _)] _ names (List.Subset.refl _)
  rw [cellOfJson?, members, Option.bind_eq_bind, Option.bind_some, cellOfFields?, ofJson?_toJson,
    ofJson?_toJson]
  rfl

theorem cellsOfJson?_map (cells : List (Word × Word)) :
    cellsOfJson? (.list (cells.map cellJson)) = some cells :=
  mapM_map cellOfJson?_cellJson cells

/-- The members of a dump in JSON. -/
def members (shown : Report) : List (String × Json) :=
  [("stage", .text shown.stage.name), ("cycles", toJson shown.cycles)] ++
    (match shown.regs with
      | none => []
      | some regs => [("registers", toJson regs)]) ++
    [("memory", .list (shown.cells.map cellJson))]

theorem json_eq (m : Machine) (stage : Stage) :
    json m stage = .record (members (report m stage)) := by
  cases stage <;> rfl

theorem nodup_members (shown : Report) : ((members shown).map Prod.fst).Nodup := by
  obtain ⟨⟨stage, _ | regs, cells⟩, cycles⟩ := shown
  · exact (by decide : ["stage", "cycles", "memory"].Nodup)
  · exact (by decide : ["stage", "cycles", "registers", "memory"].Nodup)

theorem registersOfJson?_members (shown : Report) :
    registersOfJson? (.record (members shown)) = some shown.regs := by
  have distinct := nodup_members shown
  obtain ⟨⟨stage, _ | regs, cells⟩, cycles⟩ := shown
  · rfl
  · have found : (Json.record (members ⟨⟨stage, some regs, cells⟩, cycles⟩)).members?
        ["registers"] = some [toJson regs] :=
      Json.members?_record _ [("registers", _)] distinct (by simp [members])
    show (_ >>= registersOfFields?).map some = _
    rw [found]
    show (ofJson? (toJson regs)).map some = _
    rw [ofJson?_toJson, Option.map_some]

/-- Every report is read back from its members. -/
theorem ofJson?_members (shown : Report) :
    Report.ofJson? (.record (members shown)) = some shown := by
  have name : ofName? Stage.all Stage.name (.text shown.stage.name) = some shown.stage := by
    cases shown.stage <;> decide
  have fields : (Json.record (members shown)).members? ["stage", "cycles", "memory"] =
      some [.text shown.stage.name, toJson shown.cycles, .list (shown.cells.map cellJson)] :=
    Json.members?_record _ [("stage", _), ("cycles", _), ("memory", _)]
      (nodup_members shown) (by simp [members])
  rw [Report.ofJson?, registersOfJson?_members, fields]
  simp only [Option.bind_eq_bind, Option.bind_some, Report.ofFields?, name, cellsOfJson?_map,
    ofJson?_toJson]
  rfl

/-- The object that shows a report. -/
def objectText (shown : Report) : String :=
  String.join (Json.record (members shown)).indentedPieces.toList

theorem text_json (m : Machine) (stage : Stage) :
    text m stage .json = objectText (report m stage) ++ "\n" := by
  rw [text, pieces, String.join_append, String.join_cons, String.join_nil, String.append_empty,
    json_eq, objectText]

theorem parse?_objectText (shown : Report) :
    Json.parse? (objectText shown) = some (.record (members shown)) := by
  have parsed := (Json.record (members shown)).parse?_indentedPieces "" nofun
  rwa [String.append_empty] at parsed

/-! ## Equal dumps -/

theorem text_text_eq_iff {m m' : Machine} {stage stage' : Stage} :
    text m stage .text = text m' stage' .text ↔ listing m stage = listing m' stage' := by
  constructor
  · intro same
    have read := ofText?_text m stage
    rw [same, ofText?_text] at read
    exact (Option.some.inj read).symm
  · intro same
    rw [text, text, pieces, pieces, lines_eq, lines_eq, same]

theorem text_json_eq_iff {m m' : Machine} {stage stage' : Stage} :
    text m stage .json = text m' stage' .json ↔ report m stage = report m' stage' := by
  constructor
  · intro same
    rw [text_json, text_json] at same
    have parsed := parse?_objectText (report m stage)
    rw [(String.append_left_inj _).mp same, parse?_objectText] at parsed
    have read := ofJson?_members (report m stage)
    rw [← Option.some.inj parsed, ofJson?_members] at read
    exact (Option.some.inj read).symm
  · intro same
    rw [text_json, text_json, same]

theorem report_eq_iff {m m' : Machine} {stage stage' : Stage} :
    report m stage = report m' stage' ↔
      listing m stage = listing m' stage' ∧ m.cycles = m'.cycles := by
  rw [report, report, Report.mk.injEq]

/-- Dumps determine the machine. Where there is room a dump is written to its end: as JSON one
object and a line feed that show all of the machine, as text all but the count, and in the third
format nothing. So dumps are equal just where what they show is. -/
theorem determines_machine (m m' : Machine) (stage stage' : Stage)
    (full : m.mem.cells.size = 65536) (full' : m'.mem.cells.size = 65536) :
    (∀ format, (write m stage format).run.interp BoundedWriter.handler ⟨.empty, none⟩ =
      (.ok (), ⟨bytes m stage format, none⟩)) ∧
    (∃ object members report, bytes m stage .json = (object ++ "\n").toUTF8 ∧
      Json.parse? object = some (.object members) ∧
      Report.ofJson? (.object members) = some report ∧ report.Shows m stage ∧
      report.cycles = m.cycles) ∧
    (∃ text listing, bytes m stage .text = text.toUTF8 ∧
      Listing.ofText? text = some listing ∧ listing.Shows m stage) ∧
    bytes m stage .none = .empty ∧
    (bytes m stage .json = bytes m' stage' .json ↔
      stage = stage' ∧ m.cycles = m'.cycles ∧
        (∀ address, m.mem.read address = m'.mem.read address) ∧
        (stage ≠ .afterLoad → m.regs = m'.regs)) ∧
    (bytes m stage .text = bytes m' stage' .text ↔
      stage = stage' ∧ (∀ address, m.mem.read address = m'.mem.read address) ∧
        (stage ≠ .afterLoad → m.regs = m'.regs)) := by
  refine ⟨?_, ?_, ?_, ?_, ?_, ?_⟩
  · intro format
    rw [interp_write, bytes_eq]
  · refine ⟨objectText (report m stage), _, report m stage, ?_, parse?_objectText _,
      ofJson?_members _, shows_listing full, rfl⟩
    rw [bytes_eq, text_json]
  · exact ⟨text m stage .text, listing m stage, bytes_eq _ _ _, ofText?_text m stage,
      shows_listing full⟩
  · rw [bytes_eq]
    rfl
  · rw [bytes_eq_iff, text_json_eq_iff, report_eq_iff, listing_eq_iff full full']
    tauto
  · rw [bytes_eq_iff, text_text_eq_iff, listing_eq_iff full full']

/-- Two machines that differ in PC and in the count: right after loading only JSON tells them
apart, and later text does so too. -/
theorem determines_machine_of_other_pc :
    bytes .initial .afterLoad .text =
        bytes { Machine.initial with regs := .initial, cycles := 1 } .afterLoad .text ∧
      bytes .initial .afterLoad .json ≠
        bytes { Machine.initial with regs := .initial, cycles := 1 } .afterLoad .json ∧
      bytes .initial .stopped .text ≠
        bytes { Machine.initial with regs := .initial, cycles := 1 } .stopped .text := by
  obtain ⟨-, -, -, -, json, text⟩ := determines_machine .initial
    { Machine.initial with regs := .initial, cycles := 1 } .afterLoad .afterLoad
    Memory.size_initial Memory.size_initial
  obtain ⟨-, -, -, -, -, later⟩ := determines_machine .initial
    { Machine.initial with regs := .initial, cycles := 1 } .stopped .stopped
    Memory.size_initial Memory.size_initial
  refine ⟨text.mpr ⟨rfl, fun _ => rfl, fun loaded => absurd rfl loaded⟩, ?_, ?_⟩
  · intro same
    exact absurd (json.mp same).2.1 (by decide)
  · intro same
    have pc := congrArg Registers.pc ((later.mp same).2.2 nofun)
    exact absurd pc (by decide)

end Dump

end LittleComputer
