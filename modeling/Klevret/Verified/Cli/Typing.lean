import Mathlib.Data.List.ReduceOption
import Klevret.Verified.Cli.Interpretation
import Klevret.Verified.Cli.Registered
import Klevret.Verified.Cli.Validator

/-! # Typing instructions

Every instruction can be typed: the words that spell it are read back as the instruction
(`interpret_spelled`), because the CLI reads back every address that it prints
(`readAddress_toString`).  So a session in which instructions are typed one after the other, with
any number of spaces between the words, carries out these instructions and nothing else
(`typed_instructions`). -/

namespace Klevret.Verified.Cli

open Klevret.Base Klevret.Cli
open Klevret.Dhcp.WrapperForParsing (EOT ofString getNext_ofString_cons)

/-! ## Reading back an address -/

section Address

variable {text tail : List Char} {runs : List (List Char)}

/-- The machine reads octets with dots between them to their end. -/
theorem parseIpV4Octets_values (isRuns : DottedRuns text runs tail) (nonempty : runs ≠ [])
    (octets : ∀ run ∈ runs, IsOctet run) :
    parseIpV4Octets (ofString text) runs.length =
      some (runs.map fun run => Int32.ofNat (numeralValue run), ofString tail) := by
  induction runs generalizing text with
  | nil => exact absurd rfl nonempty
  | cons run runs inductionHypothesis =>
    obtain ⟨octet, restOctets⟩ := List.forall_mem_cons.mp octets
    have inRange : ¬ (Int32.ofNat (numeralValue run) < 0 ∨ Int32.ofNat (numeralValue run) > 255) := by
      have exact : (Int32.ofNat (numeralValue run) < 0 ∨
          Int32.ofNat (numeralValue run) > Int32.ofNat 255) ↔ numeralValue run > 255 :=
        lt_zero_or_gt_iff octet.small (by decide)
      intro outOfRange
      exact Nat.not_lt.mpr octet.2 (exact.mp outOfRange)
    cases runs with
    | nil =>
      obtain ⟨rfl, digits, stops⟩ := dottedRuns_singleton.mp isRuns
      simp only [List.length_singleton, parseIpV4Octets,
        parseNumber_wrapping octet.1 digits stops, if_neg inRange]
      rfl
    | cons next runs =>
      obtain ⟨rest, rfl, digits, isRest⟩ := dottedRuns_cons_cons.mp isRuns
      have restRead := inductionHypothesis isRest (List.cons_ne_nil _ _) restOctets
      rw [List.length_cons] at restRead
      rw [List.length_cons, List.length_cons, parseIpV4Octets,
        parseNumber_wrapping octet.1 digits (noDigitFirst_dot rest)]
      dsimp only
      rw [if_neg inRange, if_neg (fun noDot => noDot.2 rfl), if_pos (Nat.succ_ne_zero _),
        getNext_ofString_cons, restRead]
      rfl

/-- The octets of an address, as they are written. -/
def octetRuns (address : IPv4Address) : List (List Char) :=
  (address.data.toList.map UInt8.toNat).map (Nat.toDigits 10)

theorem length_octetRuns (address : IPv4Address) : (octetRuns address).length = 4 := by
  rw [octetRuns, List.length_map, List.length_map, Vector.length_toList]

theorem isOctet_of_mem (address : IPv4Address) : ∀ run ∈ octetRuns address, IsOctet run := by
  intro run member
  obtain ⟨number, isNumber, rfl⟩ := List.mem_map.mp member
  obtain ⟨octet, -, rfl⟩ := List.mem_map.mp isNumber
  refine ⟨Nat.toDigits_ne_nil, ?_⟩
  rw [numeralValue_toDigits]
  exact Nat.le_of_lt_succ octet.toNat_lt

theorem ipV4AddressValues_toString (address : IPv4Address) :
    ipV4AddressValues address.toString =
      some (address.data.toList.map fun octet => Int32.ofNat octet.toNat) := by
  have isRuns : DottedRuns address.toString (octetRuns address) [] := by
    rw [toString_eq]
    exact dottedRuns_toDigits _
  have nonempty : octetRuns address ≠ [] := by
    intro empty
    have length := length_octetRuns address
    rw [empty] at length
    cases length
  have read := parseIpV4Octets_values isRuns nonempty (isOctet_of_mem address)
  rw [length_octetRuns] at read
  have values : ((octetRuns address).map fun run => Int32.ofNat (numeralValue run)) =
      address.data.toList.map fun octet => Int32.ofNat octet.toNat := by
    rw [octetRuns, List.map_map, List.map_map]
    apply List.map_congr_left
    intro octet _
    simp only [Function.comp_apply, numeralValue_toDigits]
  rw [ipV4AddressValues, read, values]
  rfl

/-- The CLI reads back every address that it prints. -/
theorem readAddress_toString (address : IPv4Address) :
    readAddress address.toString = some address := by
  have isValues := ipV4AddressValues_toString address
  have accepted : parseIpV4Address address.toString = true := by
    rw [parseIpV4Address, isValues]
    rfl
  obtain ⟨read, isRead, sameOctets⟩ := ofString_of_validated isValues
  have sameData : read.data = address.data := by
    rw [← Vector.toList_inj]
    rw [List.map_map] at sameOctets
    have asNumbers : (address.data.toList.map (Int32.toInt ∘ fun octet => Int32.ofNat octet.toNat)) =
        address.data.toList.map fun octet => (octet.toNat : ℤ) := by
      apply List.map_congr_left
      intro octet _
      exact Int32.toInt_ofNat_of_lt (Nat.lt_trans octet.toNat_lt (by decide))
    rw [asNumbers] at sameOctets
    refine List.map_injective_iff.mpr ?_ sameOctets
    intro left right same
    exact UInt8.toNat_inj.mp (Int.ofNat_inj.mp same)
  rw [readAddress, if_pos accepted, isRead, IPv4Address.ext sameData]
  rfl

end Address

/-! ## Instructions as words -/

namespace Instruction

/-- The words that spell an instruction. -/
def words : Instruction → List (List Char)
  | version => ["version".toList]
  | blank => ["ip".toList, "show".toList]
  | ipAddress ip => ["ip".toList, "address".toList, ip.toString]
  | dhcpPoolCreate ipStart ipEnd =>
    ["dhcp".toList, "pool".toList, "create".toList, ipStart.toString, ipEnd.toString]

/-- What is done, and the document that is sent. -/
def effect (calls : SystemCalls) : Instruction → HandlerEffect
  | version => .written "Клеврет. Версия 0.1 (в разработке)\n"
  | blank => .written "пустая команда\n"
  | ipAddress ip => .sent 40236
      [("component", "dhcp".toList), ("cmd", "ip.address".toList), ("ip", ip.toString)]
      calls.sentBytes
  | dhcpPoolCreate ipStart ipEnd => .sent 40236
      [("component", "dhcp".toList), ("cmd", "dhcp.pool.create".toList),
        ("ip_start", ipStart.toString), ("ip_end", ipEnd.toString)]
      calls.sentBytes

end Instruction

theorem toString_ne_show (ip : IPv4Address) : ip.toString ≠ "show".toList := by
  intro same
  have read := readAddress_toString ip
  rw [same] at read
  have refused : readAddress "show".toList = none := by decide +kernel
  cases refused.symm.trans read

theorem interpret_words (instruction : Instruction) :
    interpret instruction.words = some instruction := by
  cases instruction with
  | version => rfl
  | blank => rfl
  | ipAddress ip =>
    have arrived : Place.next .ipAddress ip.toString = .ipAddressOf ip := by
      rw [Place.next, if_neg (toString_ne_show ip), readAddress_toString]
      rfl
    change (Place.next .ipAddress ip.toString).instruction = _
    rw [arrived]
    rfl
  | dhcpPoolCreate ipStart ipEnd =>
    have arrivedStart : Place.next .dhcpPoolCreate ipStart.toString = .dhcpPoolFrom ipStart := by
      rw [Place.next, readAddress_toString]
      rfl
    have arrivedEnd : Place.next (.dhcpPoolFrom ipStart) ipEnd.toString =
        .dhcpPoolOf ipStart ipEnd := by
      rw [Place.next, readAddress_toString]
      rfl
    change ((Place.next .dhcpPoolCreate ipStart.toString).next ipEnd.toString).instruction = _
    rw [arrivedStart, arrivedEnd]
    rfl

/-- The system calls of `send_cmd` do what they are asked to. -/
structure Connects (calls : SystemCalls) : Prop where
  clientSocket : calls.clientSocket ≠ -1
  inetPton : calls.inetPton ≠ -1
  connect : calls.connect ≠ -1

theorem perform_of_connects {calls : SystemCalls} (connects : Connects calls)
    (instruction : Instruction) : instruction.perform calls = .ok (instruction.effect calls) := by
  have sent : ∀ obj, sendCmd calls .core obj = .ok (.sent 40236 obj calls.sentBytes) := by
    intro obj
    rw [sendCmd, if_neg connects.clientSocket, if_neg connects.inetPton, if_neg connects.connect]
    rfl
  cases instruction with
  | version | blank => rfl
  | ipAddress ip => exact sent _
  | dhcpPoolCreate ipStart ipEnd => exact sent _

/-! ## Keys -/

section Keys

variable {Calls Effect : Type} {interpreter : Interpreter Calls Effect} {text : List Char}
  {calls : Calls}

/-- The keys of a line, and ENTER behind it. -/
def typed (text : List Char) (calls : Calls) : List (SessionInput Calls) :=
  (text ++ [Console.ENTER]).map fun c => ⟨⟨some c, none, none⟩, calls⟩

/-- No character of the text is one of the other keys, and there are not too many of them. -/
structure Typable (text : List Char) : Prop where
  characters : ∀ c ∈ text, c ∉ [Console.TAB, Console.ENTER, Console.BACKSPACE, Console.ESC]
  short : text.length < 2 ^ 31

theorem eventOf_character {c : Char}
    (isCharacter : c ∉ [Console.TAB, Console.ENTER, Console.BACKSPACE, Console.ESC]) :
    eventOf ⟨some c, none, none⟩ = .character c := by
  simp only [List.mem_cons, List.not_mem_nil, or_false, not_or] at isCharacter
  obtain ⟨notTab, notEnter, notBackspace, notEsc⟩ := isCharacter
  simp only [eventOf, if_neg notTab, if_neg notEnter, if_neg notBackspace, if_neg notEsc]

theorem step_character {before : List Char} {c : Char}
    (isCharacter : c ∉ [Console.TAB, Console.ENTER, Console.BACKSPACE, Console.ESC])
    (short : before.length + 1 < 2 ^ 31) :
    interpreter.shell.step (.ok ⟨before, before.length⟩) (eventOf ⟨some c, none, none⟩, calls) =
      (none, .ok ⟨before ++ [c], (before ++ [c]).length⟩) := by
  rw [eventOf_character isCharacter, List.length_append]
  exact if_pos short

/-- Characters are added to the line, and the shell does nothing else. -/
theorem shell_characters {before : List Char}
    (characters : ∀ c ∈ text, c ∉ [Console.TAB, Console.ENTER, Console.BACKSPACE, Console.ESC])
    (short : before.length + text.length < 2 ^ 31) :
    (interpreter.shell.outputs (.ok ⟨before, before.length⟩)
        (text.map fun c => (eventOf ⟨some c, none, none⟩, calls))).reduceOption = [] ∧
      interpreter.shell.run (.ok ⟨before, before.length⟩)
        (text.map fun c => (eventOf ⟨some c, none, none⟩, calls)) =
        .ok ⟨before ++ text, (before ++ text).length⟩ := by
  induction text generalizing before with
  | nil =>
    rw [List.append_nil]
    exact ⟨rfl, rfl⟩
  | cons c text inductionHypothesis =>
    obtain ⟨isCharacter, restCharacters⟩ := List.forall_mem_cons.mp characters
    rw [List.length_cons] at short
    have step := @step_character _ _ interpreter calls before c isCharacter (by omega)
    obtain ⟨silent, arrived⟩ := @inductionHypothesis (before ++ [c]) restCharacters (by
      rw [List.length_append, List.length_singleton]
      omega)
    rw [List.append_assoc, List.singleton_append] at arrived
    rw [List.map_cons, Machine.outputs_cons, Machine.run_cons, Machine.output, Machine.next, step,
      List.reduceOption_cons_of_none]
    exact ⟨silent, arrived⟩

/-- A line that is typed is executed once. -/
theorem shell_typed {effect : Option Effect} (typable : Typable text)
    (executed : interpreter.execute calls text = .ok effect) :
    (interpreter.shell.outputs (.ok .empty) (shellInputs (typed text calls))).reduceOption =
        effect.toList ∧
      interpreter.shell.run (.ok .empty) (shellInputs (typed text calls)) = .ok .empty := by
  have characters := @shell_characters _ _ interpreter text calls [] typable.characters (by
    simpa using typable.short)
  obtain ⟨silent, arrived⟩ :
      (interpreter.shell.outputs (.ok .empty)
        (text.map fun c => (eventOf ⟨some c, none, none⟩, calls))).reduceOption = [] ∧
      interpreter.shell.run (.ok .empty)
        (text.map fun c => (eventOf ⟨some c, none, none⟩, calls)) = .ok ⟨text, text.length⟩ :=
    characters
  have enter : interpreter.shell.step (.ok ⟨text, text.length⟩)
      (eventOf ⟨some Console.ENTER, none, none⟩, calls) = (effect, .ok .empty) := by
    change interpreter.handle ⟨text, text.length⟩ calls .enter = _
    rw [Interpreter.handle, executed]
  have keys : shellInputs (typed text calls) =
      (text.map fun c => (eventOf ⟨some c, none, none⟩, calls)) ++
        [(eventOf ⟨some Console.ENTER, none, none⟩, calls)] := by
    simp [shellInputs, typed]
  rw [keys, Machine.outputs_append, Machine.run_append, List.reduceOption_append, silent, arrived,
    Machine.outputs_cons, Machine.run_cons, Machine.output, Machine.next, enter]
  cases effect with
  | none => exact ⟨rfl, rfl⟩
  | some effect => exact ⟨rfl, rfl⟩

end Keys

/-! ## Sessions of instructions -/

/-- A line that spells the instruction, with one or more spaces between two words. -/
structure TypedAs (line : List Char) (instruction : Instruction) : Prop where
  separated : Separated ' ' instruction.words line
  short : line.length < 2 ^ 31

/-- The characters of the words that spell instructions. -/
def IsWordChar (c : Char) : Prop := c.isAlpha ∨ c.isDigit ∨ c = '.'

instance : DecidablePred IsWordChar := fun c =>
  inferInstanceAs (Decidable (c.isAlpha ∨ c.isDigit ∨ c = '.'))

theorem isWordChar_of_mem_toString {ip : IPv4Address} : ∀ c ∈ ip.toString, IsWordChar c := by
  have digits : ∀ octet : UInt8, ∀ c ∈ octetToString octet, IsWordChar c := by
    intro octet c member
    exact Or.inr (Or.inl (Nat.isDigit_of_mem_toDigits (by decide) (by decide) member))
  intro c member
  simp only [IPv4Address.toString, List.mem_append, List.mem_cons] at member
  obtain first | dot | second | dot | third | dot | fourth := member
  · exact digits _ c first
  · exact Or.inr (Or.inr dot)
  · exact digits _ c second
  · exact Or.inr (Or.inr dot)
  · exact digits _ c third
  · exact Or.inr (Or.inr dot)
  · exact digits _ c fourth

theorem words_areWords (instruction : Instruction) :
    ∀ word ∈ instruction.words, word ≠ [] ∧ ∀ c ∈ word, IsWordChar c := by
  have fixed : ∀ word : String, word.toList ≠ [] → word.toList.all Char.isAlpha →
      word.toList ≠ [] ∧ ∀ c ∈ word.toList, IsWordChar c := by
    intro word nonempty letters
    exact ⟨nonempty, fun c member => Or.inl (List.all_eq_true.mp letters c member)⟩
  have address : ∀ ip : IPv4Address, ip.toString ≠ [] ∧ ∀ c ∈ ip.toString, IsWordChar c := by
    intro ip
    refine ⟨?_, isWordChar_of_mem_toString⟩
    simp [IPv4Address.toString]
  intro word member
  cases instruction with
  | version =>
    rw [List.mem_singleton.mp member]
    exact fixed "version" (by decide) (by decide)
  | blank =>
    simp only [Instruction.words, List.mem_cons, List.not_mem_nil, or_false] at member
    obtain rfl | rfl := member
    · exact fixed "ip" (by decide) (by decide)
    · exact fixed "show" (by decide) (by decide)
  | ipAddress ip =>
    simp only [Instruction.words, List.mem_cons, List.not_mem_nil, or_false] at member
    obtain rfl | rfl | rfl := member
    · exact fixed "ip" (by decide) (by decide)
    · exact fixed "address" (by decide) (by decide)
    · exact address ip
  | dhcpPoolCreate ipStart ipEnd =>
    simp only [Instruction.words, List.mem_cons, List.not_mem_nil, or_false] at member
    obtain rfl | rfl | rfl | rfl | rfl := member
    · exact fixed "dhcp" (by decide) (by decide)
    · exact fixed "pool" (by decide) (by decide)
    · exact fixed "create" (by decide) (by decide)
    · exact address ipStart
    · exact address ipEnd

theorem noSpace_words (instruction : Instruction) :
    ∀ word ∈ instruction.words, word ≠ [] ∧ ' ' ∉ word := by
  intro word member
  obtain ⟨nonempty, characters⟩ := words_areWords instruction word member
  have notWordChar : ¬ IsWordChar ' ' := by decide
  exact ⟨nonempty, fun isSpace => notWordChar (characters ' ' isSpace)⟩

theorem TypedAs.typable {line : List Char} {instruction : Instruction}
    (typedAs : TypedAs line instruction) : Typable line := by
  refine ⟨?_, typedAs.short⟩
  have otherKeys : ∀ c ∈ [Console.TAB, Console.ENTER, Console.BACKSPACE, Console.ESC],
      c ≠ ' ' ∧ ¬ IsWordChar c := by
    simp only [List.forall_mem_cons]
    refine ⟨by decide, by decide, by decide, by decide, List.forall_mem_nil _⟩
  intro c member isOther
  obtain ⟨notSpace, notWordChar⟩ := otherKeys c isOther
  obtain isSpace | ⟨word, isWord, inWord⟩ := typedAs.separated.mem member
  · exact notSpace isSpace
  · exact notWordChar ((words_areWords instruction word isWord).2 c inWord)

/-- An instruction, the line that it is typed as, and the system calls of its handler. -/
structure TypedInstruction where
  instruction : Instruction
  line : List Char
  calls : SystemCalls

/-- The line spells the instruction, and the system calls do what they are asked to. -/
structure TypedInstruction.Works (item : TypedInstruction) : Prop where
  typedAs : TypedAs item.line item.instruction
  connects : Connects item.calls

/-- The keys of a session. -/
def keysOf (session : List TypedInstruction) : List (SessionInput SystemCalls) :=
  session.flatMap fun item => typed item.line item.calls

theorem shell_instructions {split : Split} (cuts : CutsAtSpaces split)
    {session : List TypedInstruction} (works : ∀ item ∈ session, item.Works) :
    ((shippedInterpreter split).shell.outputs (.ok .empty)
        (shellInputs (keysOf session))).reduceOption =
        session.map (fun item => item.instruction.effect item.calls) ∧
      (shippedInterpreter split).shell.run (.ok .empty) (shellInputs (keysOf session)) =
        .ok .empty := by
  induction session with
  | nil => exact ⟨rfl, rfl⟩
  | cons item session inductionHypothesis =>
    obtain ⟨⟨typedAs, connects⟩, restWorks⟩ := List.forall_mem_cons.mp works
    obtain ⟨restOutputs, restRun⟩ := inductionHypothesis restWorks
    have cut := cuts _ _ typedAs.separated (noSpace_words item.instruction)
    have executed : (shippedInterpreter split).execute item.calls item.line =
        .ok (some (item.instruction.effect item.calls)) := by
      simp only [shippedInterpreter, cut, interpret_words, perform_of_connects connects]
      rfl
    obtain ⟨outputs, run⟩ := shell_typed typedAs.typable executed
    have keys : shellInputs (keysOf (item :: session)) =
        shellInputs (typed item.line item.calls) ++ shellInputs (keysOf session) := by
      simp [shellInputs, keysOf]
    rw [keys, Machine.outputs_append, Machine.run_append, List.reduceOption_append, outputs, run,
      restOutputs, restRun]
    exact ⟨rfl, rfl⟩

/-- A session carries out the instructions that are typed in it. -/
def CarriesOut (split : Split) (session : List TypedInstruction) : Prop :=
  ∃ commands, allCommands = .ok commands ∧
    ((KeyLoop.machine split (createCommandTree commands) performShipped).outputs (.ok .start)
        (keysOf session)).reduceOption =
        session.map (fun item => item.instruction.effect item.calls) ∧
      Returns ((KeyLoop.machine split (createCommandTree commands) performShipped).run (.ok .start)
        (keysOf session))

theorem typed_instructions {split : Split} (cuts : CutsAtSpaces split)
    (session : List TypedInstruction) (works : ∀ item ∈ session, item.Works) :
    CarriesOut split session := by
  obtain ⟨commands, isOk, isTree⟩ := createCommandTree_allCommands
  obtain ⟨outputs, run⟩ := shell_instructions cuts works
  -- what the shell does is what the loop does
  have refined := @outcome_refined _ _ _ split shippedTree performShipped _ inLineIfOk_start
    (keysOf session)
  rw [map_typedLine_start, commandInterpreter_shipped] at refined
  obtain ⟨sameOutputs, sameRun⟩ := refined
  rw [run] at sameRun
  refine ⟨commands, isOk, ?_, ?_⟩
  · rw [isTree, sameOutputs, outputs]
  · rw [isTree]
    cases ended : (KeyLoop.machine split shippedTree performShipped).run (.ok .start)
        (keysOf session) with
    | ok loop => exact returns_ok loop
    | error fault =>
      rw [ended] at sameRun
      cases sameRun

/-- An address, and then a pool, with two spaces in the first line. -/
def sampleSession : List TypedInstruction :=
  [⟨.ipAddress ⟨#v[192, 168, 1, 1]⟩, "ip address  192.168.1.1".toList, ⟨3, 1, 0, 71⟩⟩,
    ⟨.dhcpPoolCreate ⟨#v[10, 0, 0, 1]⟩ ⟨#v[10, 0, 0, 9]⟩,
      "dhcp pool create 10.0.0.1 10.0.0.9".toList, ⟨4, 1, 0, 103⟩⟩]

theorem typed_instructions_sample : CarriesOut (cutAtRuns ' ') sampleSession := by
  have first : TypedAs "ip address  192.168.1.1".toList (.ipAddress ⟨#v[192, 168, 1, 1]⟩) :=
    ⟨.more "ip".toList 0 (.more "address".toList 1 (.single "192.168.1.1".toList)), by decide⟩
  have second : TypedAs "dhcp pool create 10.0.0.1 10.0.0.9".toList
      (.dhcpPoolCreate ⟨#v[10, 0, 0, 1]⟩ ⟨#v[10, 0, 0, 9]⟩) :=
    ⟨.more "dhcp".toList 0 (.more "pool".toList 0 (.more "create".toList 0
      (.more "10.0.0.1".toList 0 (.single "10.0.0.9".toList)))), by decide⟩
  refine typed_instructions cutsAtSpaces_cutAtRuns sampleSession ?_
  refine List.forall_mem_cons.mpr ⟨⟨first, ?_⟩, List.forall_mem_singleton.mpr ⟨second, ?_⟩⟩
  · exact ⟨by decide, by decide, by decide⟩
  · exact ⟨by decide, by decide, by decide⟩

end Klevret.Verified.Cli
