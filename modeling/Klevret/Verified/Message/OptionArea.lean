import Klevret.Dhcp.DhcpMessage
import Klevret.Verified.Options.Constructor

/-! # The option area of a datagram

The option loop as a reader of a grammar.  `OptionArea` is the grammar: pads, items
of a code, a length byte and as many payload bytes, and an optional end marker.
`InBounds` says where the loop stays inside the datagram: every item is refused
before its payload is read, or its payload is whole and complete. -/

namespace Klevret.Verified.Message

open Klevret.Base Klevret.Dhcp DhcpMessage Klevret.Verified.Options

/-- A code that starts an item. -/
structure IsItemCode (code : UInt8) : Prop where
  notPad : code ≠ 0
  notEnd : code ≠ 255

/-- The items that an option area spells. -/
inductive OptionArea : List UInt8 → List (UInt8 × List UInt8) → Prop where
  | finished : OptionArea [] []
  | ended (ignored : List UInt8) : OptionArea (255 :: ignored) []
  | pad {area : List UInt8} {items : List (UInt8 × List UInt8)} (rest : OptionArea area items) :
      OptionArea (0 :: area) items
  | item {code length : UInt8} {payload area : List UInt8} {items : List (UInt8 × List UInt8)}
      (isItem : IsItemCode code) (exact : payload.length = length.toNat)
      (rest : OptionArea area items) :
      OptionArea (code :: length :: (payload ++ area)) ((code, payload) :: items)

/-- The loop stays inside the datagram. -/
inductive InBounds : List UInt8 → Prop where
  | finished : InBounds []
  | ended (ignored : List UInt8) : InBounds (255 :: ignored)
  | pad {area : List UInt8} (rest : InBounds area) : InBounds (0 :: area)
  | unadmitted {code length : UInt8} {area : List UInt8} (isItem : IsItemCode code)
      (refused : ∀ description, ¬ Admits code.toNat length.toNat description) :
      InBounds (code :: length :: area)
  | disallowed {code length : UInt8} {payload area : List UInt8}
      {description : DhcpOptionDescription} (isItem : IsItemCode code)
      (exact : payload.length = length.toNat)
      (admits : Admits code.toNat payload.length description)
      (whole : WholeElements description.payloadDescription payload.length)
      (refused : ¬ payloadAllowed description.payloadDescription payload) :
      InBounds (code :: length :: (payload ++ area))
  | item {code length : UInt8} {payload area : List UInt8} (isItem : IsItemCode code)
      (exact : payload.length = length.toNat) (accepted : Accepted code.toNat payload)
      (rest : InBounds area) : InBounds (code :: length :: (payload ++ area))

/-- The last option is cut off after its code or inside its payload. -/
inductive CutOff : List UInt8 → Prop where
  | afterCode {code : UInt8} (isItem : IsItemCode code) : CutOff [code]
  | inPayload {code length : UInt8} {payload : List UInt8} (isItem : IsItemCode code)
      (short : payload.length < length.toNat) : CutOff (code :: length :: payload)
  | pad {area : List UInt8} (rest : CutOff area) : CutOff (0 :: area)
  | item {code length : UInt8} {payload area : List UInt8} (isItem : IsItemCode code)
      (exact : payload.length = length.toNat) (rest : CutOff area) :
      CutOff (code :: length :: (payload ++ area))

/-- The cases of the option loop, from the back of the datagram. -/
theorem area_induction {Motive : List UInt8 → Prop} (finished : Motive [])
    (ended : ∀ ignored, Motive (255 :: ignored)) (pad : ∀ area, Motive area → Motive (0 :: area))
    (afterCode : ∀ code, IsItemCode code → Motive [code])
    (short : ∀ code length payload, IsItemCode code → payload.length < length.toNat →
      Motive (code :: length :: payload))
    (complete : ∀ code length payload area, IsItemCode code → payload.length = length.toNat →
      Motive area → Motive (code :: length :: (payload ++ area)))
    (area : List UInt8) : Motive area := by
  induction size : area.length using Nat.strongRecOn generalizing area with
  | ind size inductionHypothesis =>
    subst size
    cases area with
    | nil => exact finished
    | cons code tail =>
      by_cases isPad : code = 0
      · subst isPad
        exact pad tail (inductionHypothesis tail.length (Nat.lt_succ_self _) tail rfl)
      by_cases isEnd : code = 255
      · subst isEnd
        exact ended tail
      have isItem : IsItemCode code := ⟨isPad, isEnd⟩
      cases tail with
      | nil => exact afterCode code isItem
      | cons length rest =>
        -- the length byte reaches past the end, or it cuts off the payload
        by_cases isShort : rest.length < length.toNat
        · exact short code length rest isItem isShort
        · have exact : (rest.take length.toNat).length = length.toNat := by
            rw [List.length_take]
            omega
          have smaller : (rest.drop length.toNat).length < (code :: length :: rest).length := by
            simp only [List.length_drop, List.length_cons]
            omega
          rw [← List.take_append_drop length.toNat rest]
          exact complete code length _ _ isItem exact
            (inductionHypothesis _ smaller (rest.drop length.toNat) rfl)

/-! ## One turn of the loop -/

section Turn

variable [Host] (before : List UInt8) {area : List UInt8}

theorem readOptions_finished : readOptions (before ++ []) before.length = .ok [] := by
  rw [readOptions, if_pos (by simp)]
  rfl

theorem readOptions_pad :
    readOptions (before ++ 0 :: area) before.length =
      readOptions (before ++ [0] ++ area) (before ++ [0]).length := by
  rw [readOptions]
  simp

theorem readOptions_ended (ignored : List UInt8) :
    readOptions (before ++ 255 :: ignored) before.length = .ok [] := by
  rw [readOptions]
  simp

theorem readOptions_code {code : UInt8} (isItem : IsItemCode code) :
    readOptions (before ++ code :: area) before.length = (do
      let payloadLength ← deref (before ++ code :: area) (before.length + 1)
      let newOption ← DhcpOption.construct code.toNat payloadLength.toNat
        (before ++ code :: area) (before.length + 2) (before.length + 2 + payloadLength.toNat)
      let options ← readOptions (before ++ code :: area) (before.length + 2 + payloadLength.toNat)
      return newOption :: options) := by
  have notEnd : before.length ≠ (before ++ code :: area).length := by
    rw [List.length_append, List.length_cons]
    omega
  have inside : before.length < (before ++ code :: area).length := by
    rw [List.length_append, List.length_cons]
    omega
  have here : (before ++ code :: area)[before.length] = code := by simp
  rw [readOptions, if_neg notEnd, dif_pos inside]
  simp only [here]
  rw [if_neg isItem.notPad, if_neg isItem.notEnd]

/-- The length byte is read behind the end of the datagram. -/
theorem readOptions_afterCode {code : UInt8} (isItem : IsItemCode code) :
    readOptions (before ++ [code]) before.length = undefinedBehaviour := by
  rw [readOptions_code before isItem, deref_of_le (by simp)]
  rfl

theorem readOptions_item {code length : UInt8} (isItem : IsItemCode code) :
    readOptions (before ++ code :: length :: area) before.length = (do
      let option ← DhcpOption.construct code.toNat length.toNat
        (before ++ [code, length] ++ area) (before ++ [code, length]).length
        ((before ++ [code, length]).length + length.toNat)
      let options ← readOptions (before ++ [code, length] ++ area)
        ((before ++ [code, length]).length + length.toNat)
      return option :: options) := by
  have lengthByte : deref (before ++ code :: length :: area) (before.length + 1) = .ok length := by
    rw [deref_of_lt (by simp)]
    simp
  have behind : (before ++ [code, length]).length = before.length + 2 := by simp
  have sameData : before ++ [code, length] ++ area = before ++ code :: length :: area := by simp
  rw [readOptions_code before isItem, lengthByte, ok_bind, behind, sameData]

/-- An item whose payload is complete. -/
theorem readOptions_complete {code length : UInt8} {payload : List UInt8}
    (isItem : IsItemCode code) (exact : payload.length = length.toNat) :
    readOptions (before ++ code :: length :: (payload ++ area)) before.length = (do
      let option ← DhcpOption.construct code.toNat payload.length
        (before ++ [code, length] ++ payload ++ area) (before ++ [code, length]).length
        ((before ++ [code, length]).length + payload.length)
      let options ← readOptions (before ++ [code, length] ++ payload ++ area)
        (before ++ [code, length] ++ payload).length
      return option :: options) := by
  have behind : (before ++ [code, length] ++ payload).length =
      (before ++ [code, length]).length + payload.length := List.length_append
  rw [readOptions_item before isItem, ← exact, ← List.append_assoc, behind]

/-- An accepted item gives its option, and the loop goes on behind it. -/
theorem readOptions_accepted {code length : UInt8} {payload : List UInt8}
    (isItem : IsItemCode code) (exact : payload.length = length.toNat)
    (accepted : Accepted code.toNat payload) :
    readOptions (before ++ code :: length :: (payload ++ area)) before.length = (do
      let option ← optionOf code.toNat payload
      let options ← readOptions (before ++ [code, length] ++ payload ++ area)
        (before ++ [code, length] ++ payload).length
      return option :: options) := by
  obtain ⟨description, admits, whole, _⟩ := accepted
  rw [readOptions_complete before isItem exact, construct_framed admits whole]

end Turn

/-! ## Cut-off areas -/

section Runs

variable [Host] {area : List UInt8} {items : List (UInt8 × List UInt8)}

/-- An item whose payload reaches past the end is never accepted. -/
theorem construct_short (before : List UInt8) {code : ℤ} {length : ℕ} {payload : List UInt8}
    (short : payload.length < length) :
    ¬ Returns (DhcpOption.construct code length (before ++ payload) before.length
      (before.length + length)) := by
  by_cases admitted : ∃ description, Admits code length description
  · obtain ⟨description, admits⟩ := admitted
    rw [construct_beyond admits]
    · exact not_returns_error _
    · rw [List.length_append]
      exact Nat.le_add_right _ _
    -- the range would have to lie inside the datagram
    · rintro ⟨_, inside⟩
      rw [List.length_append] at inside
      omega
  · exact (construct_of_not_admits (not_exists.mp admitted) _).not_returns

/-- A cut-off option area is never accepted. -/
theorem not_returns_of_cutOff (cutOff : CutOff area) (before : List UInt8) :
    ¬ Returns (readOptions (before ++ area) before.length) := by
  induction cutOff generalizing before with
  | afterCode isItem =>
    rw [readOptions_afterCode before isItem]
    exact not_returns_error _
  | inPayload isItem short =>
    rw [readOptions_item before isItem]
    exact not_returns_bind (construct_short _ short) _
  | pad rest inductionHypothesis =>
    rw [readOptions_pad before]
    exact inductionHypothesis (before ++ [0])
  | item isItem exact rest inductionHypothesis =>
    rw [readOptions_complete before isItem exact]
    rintro ⟨options, returned⟩
    obtain ⟨option, _, returned⟩ := bind_eq_ok.mp returned
    obtain ⟨later, laterReturned, _⟩ := bind_eq_ok.mp returned
    exact inductionHypothesis _ ⟨later, laterReturned⟩

/-! ## The grammar -/

/-- The options of the items, in order. -/
def optionsOf (items : List (UInt8 × List UInt8)) : Cpp (List DhcpOption) :=
  items.mapM fun item => optionOf item.1.toNat item.2

theorem optionsOf_cons (code : UInt8) (payload : List UInt8) :
    optionsOf ((code, payload) :: items) = (do
      let option ← optionOf code.toNat payload
      let options ← optionsOf items
      return option :: options) := by
  rw [optionsOf, List.mapM_cons]
  rfl

/-- An area of accepted items is read as their options. -/
theorem readOptions_of_area (spelled : OptionArea area items)
    (accepted : ∀ item ∈ items, Accepted item.1.toNat item.2) (before : List UInt8) :
    readOptions (before ++ area) before.length = optionsOf items := by
  induction spelled generalizing before with
  | finished => exact readOptions_finished before
  | ended ignored => exact readOptions_ended before ignored
  | pad rest inductionHypothesis =>
    rw [readOptions_pad before]
    exact inductionHypothesis accepted (before ++ [0])
  | @item code length payload area items isItem exact rest inductionHypothesis =>
    obtain ⟨itemAccepted, restAccepted⟩ := List.forall_mem_cons.mp accepted
    have later := inductionHypothesis restAccepted (before ++ [code, length] ++ payload)
    rw [readOptions_accepted before isItem exact itemAccepted, later, optionsOf_cons]

/-- Whatever is read was spelled by accepted items. -/
theorem area_of_readOptions (before : List UInt8)
    (returned : Returns (readOptions (before ++ area) before.length)) :
    ∃ items, OptionArea area items ∧ ∀ item ∈ items, Accepted item.1.toNat item.2 := by
  induction area using area_induction generalizing before with
  | finished => exact ⟨[], .finished, nofun⟩
  | ended ignored => exact ⟨[], .ended ignored, nofun⟩
  | pad area inductionHypothesis =>
    rw [readOptions_pad before] at returned
    obtain ⟨items, spelled, accepted⟩ := inductionHypothesis _ returned
    exact ⟨items, .pad spelled, accepted⟩
  | afterCode code isItem => exact absurd returned (not_returns_of_cutOff (.afterCode isItem) before)
  | short code length payload isItem isShort =>
    exact absurd returned (not_returns_of_cutOff (.inPayload isItem isShort) before)
  | complete code length payload area isItem exact inductionHypothesis =>
    rw [readOptions_complete before isItem exact] at returned
    obtain ⟨options, returned⟩ := returned
    obtain ⟨option, constructed, returned⟩ := bind_eq_ok.mp returned
    obtain ⟨later, laterReturned, _⟩ := bind_eq_ok.mp returned
    obtain ⟨items, spelled, accepted⟩ := inductionHypothesis _ ⟨later, laterReturned⟩
    have itemAccepted := accepted_of_optionOf (optionOf_of_construct constructed)
    exact ⟨_, .item isItem exact spelled, List.forall_mem_cons.mpr ⟨itemAccepted, accepted⟩⟩

/-! ## Bounds -/

theorem inBounds_of_defined (before : List UInt8)
    (defined : readOptions (before ++ area) before.length ≠ undefinedBehaviour) :
    InBounds area := by
  induction area using area_induction generalizing before with
  | finished => exact .finished
  | ended ignored => exact .ended ignored
  | pad area inductionHypothesis =>
    rw [readOptions_pad before] at defined
    exact .pad (inductionHypothesis _ defined)
  | afterCode code isItem => exact absurd (readOptions_afterCode before isItem) defined
  | short code length payload isItem isShort =>
    by_cases admitted : ∃ description, Admits code.toNat length.toNat description
    · obtain ⟨description, admits⟩ := admitted
      rw [readOptions_item before isItem, construct_beyond admits] at defined
      · exact absurd rfl defined
      · simp only [List.length_append]
        omega
      · rintro ⟨_, inside⟩
        simp only [List.length_append] at inside
        omega
    · exact .unadmitted isItem (not_exists.mp admitted)
  | complete code length payload area isItem exact inductionHypothesis =>
    by_cases admitted : ∃ description, Admits code.toNat payload.length description
    · obtain ⟨description, admits⟩ := admitted
      -- a payload that is not whole makes the inner loop miss its end
      by_cases whole : WholeElements description.payloadDescription payload.length
      · by_cases allowed : payloadAllowed description.payloadDescription payload
        · have accepted : Accepted code.toNat payload := ⟨description, admits, whole, allowed⟩
          obtain ⟨option, made⟩ := optionOf_accepted accepted
          rw [readOptions_accepted before isItem exact accepted, made, ok_bind] at defined
          refine .item isItem exact accepted
            (inductionHypothesis (before ++ [code, length] ++ payload) ?_)
          intro laterUndefined
          rw [laterUndefined] at defined
          exact defined rfl
        · exact .disallowed isItem exact admits whole allowed
      · rw [readOptions_complete before isItem exact, construct_beyond admits] at defined
        · exact absurd rfl defined
        · simp only [List.length_append]
          omega
        · exact fun wholeInside => whole wholeInside.1
    · rw [exact] at admitted
      exact .unadmitted isItem (not_exists.mp admitted)

theorem defined_of_inBounds (inBounds : InBounds area) (before : List UInt8) :
    readOptions (before ++ area) before.length ≠ undefinedBehaviour := by
  induction inBounds generalizing before with
  | finished =>
    rw [readOptions_finished]
    exact nofun
  | ended ignored =>
    rw [readOptions_ended]
    exact nofun
  | pad rest inductionHypothesis =>
    rw [readOptions_pad]
    exact inductionHypothesis _
  | unadmitted isItem refused =>
    rw [readOptions_item before isItem]
    exact ((construct_of_not_admits refused _).bind _).defined
  | disallowed isItem exact admits whole refused =>
    rw [readOptions_complete before isItem exact, construct_framed admits whole]
    exact ((optionOf_refused admits whole refused).bind _).defined
  | item isItem exact accepted rest inductionHypothesis =>
    obtain ⟨option, made⟩ := optionOf_accepted accepted
    rw [readOptions_accepted before isItem exact accepted, made, ok_bind]
    exact defined_bind (inductionHypothesis _) nofun

/-- The loop leaves the datagram exactly when the area is not in bounds. -/
theorem readOptions_defined_iff (before : List UInt8) :
    readOptions (before ++ area) before.length ≠ undefinedBehaviour ↔ InBounds area :=
  ⟨inBounds_of_defined before, fun inBounds => defined_of_inBounds inBounds before⟩

end Runs

end Klevret.Verified.Message
