import Klevret.Base.Chunks
import Klevret.Verified.Options.Elements

/-! # Payload ranges

What the constructor does with a payload depends on three things: whether the
description admits its length (`Admits`), whether it is made of whole elements
(`WholeElements`), and whether the values are allowed (`payloadAllowed`).  A whole
payload inside the buffer is read as if it stood alone; any other admitted one is
read past the end of the buffer. -/

namespace Klevret.Verified.Options

open Klevret.Base Klevret.Dhcp

/-! ## The table of descriptions -/

/-- What every row of `options_descriptions` satisfies. -/
structure RowSound (code : ℤ) (row : DhcpOptionDescription) : Prop where
  sameCode : row.code = code
  codeIsByte : 0 ≤ code ∧ code < 256
  unpayloaded : row.payloadDescription.type = .none ↔ code = 0 ∨ code = 255
  oneElement : row.payloadLength ≠ variableDhcpOptionLength →
    row.payloadDescription.type ≠ .none →
    row.payloadDescription.type.isElement ∧ row.payloadLength = row.payloadDescription.elementSize
  unconstrained : row.payloadLength = variableDhcpOptionLength →
    row.payloadDescription.intConstraint = noConstraint
  minLenSmall : 0 ≤ row.payloadDescription.minLenInElements ∧
    row.payloadDescription.minLenInElements < 256

set_option maxRecDepth 4000 in
theorem rowSound {code : ℤ} {row : DhcpOptionDescription}
    (found : optionsDescriptions.lookup code = some row) : RowSound code row := by
  have allRows : ∀ entry ∈ optionsDescriptions,
      entry.2.code = entry.1 ∧ (0 ≤ entry.1 ∧ entry.1 < 256) ∧
      (entry.2.payloadDescription.type = .none ↔ entry.1 = 0 ∨ entry.1 = 255) ∧
      (entry.2.payloadLength ≠ variableDhcpOptionLength →
        entry.2.payloadDescription.type ≠ .none →
        entry.2.payloadDescription.type.isElement ∧
          entry.2.payloadLength = entry.2.payloadDescription.elementSize) ∧
      (entry.2.payloadLength = variableDhcpOptionLength →
        entry.2.payloadDescription.intConstraint = noConstraint) ∧
      0 ≤ entry.2.payloadDescription.minLenInElements ∧
        entry.2.payloadDescription.minLenInElements < 256 := by
    decide
  obtain ⟨before, after, split, -⟩ := List.lookup_eq_some_iff.mp found
  have member : (code, row) ∈ optionsDescriptions := by
    rw [split]
    exact List.mem_append_right _ (List.mem_cons_self ..)
  obtain ⟨sameCode, codeIsByte, unpayloaded, oneElement, unconstrained, minLenSmall⟩ :=
    allRows (code, row) member
  exact ⟨sameCode, codeIsByte, unpayloaded, oneElement, unconstrained, minLenSmall⟩

/-- A row whose payload is read at once has no fixed length. -/
theorem RowSound.variableLength {code : ℤ} {description : DhcpOptionDescription}
    (row : RowSound code description)
    (payloaded : description.payloadDescription.type ≠ .none)
    (atOnce : ¬ description.payloadDescription.type.isElement) :
    description.payloadLength = variableDhcpOptionLength := by
  by_contra fixed
  exact atOnce (row.oneElement fixed payloaded).1

/-- The minimal length survives its cast to `unsigned int`. -/
theorem toNat_minLen {minLen : ℤ} (small : 0 ≤ minLen ∧ minLen < 256) :
    ((UInt32.ofInt minLen).toNat : ℤ) = minLen := by
  rw [UInt32.ofInt, UInt32.toNat_ofNat']
  omega

/-! ## Whole and allowed payloads -/

/-- A payload that is read element by element consists of whole elements. -/
def WholeElements (description : DhcpOptionPayloadDescription) (length : ℕ) : Prop :=
  description.type.isElement → description.elementSize ∣ length

/-- The values are allowed: the integers by their constraint, and a byte array by
    the minimal length, which an empty one is not held to. -/
def payloadAllowed (description : DhcpOptionPayloadDescription) (payload : List UInt8) : Bool :=
  match description.type with
  | .byteArray => payload.isEmpty ∨ description.minLenInElements ≤ payload.length
  | .string | .vendorSpecificField => true
  | .none => false
  | _ => (pieces description.elementSize payload).all (elementAllowed description)

theorem payloadAllowed_of_repeats {description : DhcpOptionPayloadDescription}
    (repeats : description.type.isElement) (payload : List UInt8) :
    payloadAllowed description payload =
      (pieces description.elementSize payload).all (elementAllowed description) := by
  obtain ⟨type, isList, minLen, constraint⟩ := description
  cases type with
  | none | vendorSpecificField | byteArray | string => cases repeats
  | _ => rfl

theorem payloadAllowed_of_atOnce {description : DhcpOptionPayloadDescription}
    (atOnce : ¬ description.type.isElement) (payloaded : description.type ≠ .none)
    {payload : List UInt8} (nonempty : payload ≠ []) :
    payloadAllowed description payload ↔
      ¬ (description.type = .byteArray ∧ payload.length < description.minLenInElements) := by
  obtain ⟨type, isList, minLen, constraint⟩ := description
  cases type with
  | none => exact absurd rfl payloaded
  | vendorSpecificField | byteArray | string => simp [payloadAllowed, nonempty]
  | _ => exact absurd rfl atOnce

theorem payloadAllowed_nil {description : DhcpOptionPayloadDescription}
    (payloaded : description.type ≠ .none) : payloadAllowed description [] := by
  obtain ⟨type, isList, minLen, constraint⟩ := description
  cases type with
  | none => exact absurd rfl payloaded
  | _ => simp [payloadAllowed, pieces, chunks]

/-! ## Reading a payload -/

section Reading

variable [Host] {description : DhcpOptionDescription} {buffer : List UInt8} {iter last : ℕ}

theorem processPayload_end : processPayload description buffer last last = .ok [] := by
  rw [processPayload, if_pos rfl]
  rfl

theorem processPayload_element (repeats : description.payloadDescription.type.isElement)
    (notEnd : iter ≠ last) :
    processPayload description buffer iter last = (do
      let value ← processElement description.payloadDescription buffer iter
        (iter + description.payloadDescription.elementSize)
      let values ← processPayload description buffer
        (iter + description.payloadDescription.elementSize) last
      return value :: values) := by
  rw [processPayload, if_neg notEnd]
  obtain ⟨code, length, type, isList, minLen, constraint⟩ := description
  cases type with
  | none | vendorSpecificField | byteArray | string => cases repeats
  | _ =>
    dsimp only
    split
    next fault read =>
      rw [read]
      rfl
    next value read =>
      rw [read]
      rfl

/-- An element inside the buffer is read as if it stood alone. -/
theorem processElement_inside (repeats : description.payloadDescription.type.isElement)
    (inside : iter + description.payloadDescription.elementSize ≤ buffer.length) :
    processElement description.payloadDescription buffer iter
        (iter + description.payloadDescription.elementSize) =
      readElement description.payloadDescription
        ((buffer.drop iter).take description.payloadDescription.elementSize) := by
  generalize sizeEq : description.payloadDescription.elementSize = size at *
  have split : buffer.take iter ++ (buffer.drop iter).take size ++ buffer.drop (iter + size) =
      buffer := by
    rw [List.append_assoc, ← List.drop_drop, List.take_append_drop, List.take_append_drop]
  have beforeLength : (buffer.take iter).length = iter := by
    rw [List.length_take]
    omega
  have elementLength : 0 + size ≤ ((buffer.drop iter).take size).length := by
    rw [List.length_take, List.length_drop]
    omega
  subst sizeEq
  -- cut the buffer into what is before the element, the element and what is behind it
  have alone := processElement_middle (buffer.take iter)
    (buffer.drop (iter + description.payloadDescription.elementSize)) repeats elementLength
  rw [split, beforeLength, Nat.add_zero, Nat.zero_add] at alone
  rw [readElement, Nat.zero_add]
  exact alone

/-- A payload of whole elements, wherever it lies, is read element by element. -/
theorem processPayload_whole (repeats : description.payloadDescription.type.isElement)
    (before after : List UInt8) {elements : List (List UInt8)}
    (whole : ∀ element ∈ elements,
      element.length = description.payloadDescription.elementSize) :
    processPayload description (before ++ elements.flatten ++ after) before.length
        (before.length + elements.flatten.length) =
      elements.mapM (readElement description.payloadDescription) := by
  induction elements generalizing before with
  | nil =>
    rw [List.flatten_nil, List.length_nil, Nat.add_zero, processPayload_end]
    rfl
  | cons element elements inductionHypothesis =>
    obtain ⟨elementWhole, restWhole⟩ := List.forall_mem_cons.mp whole
    have positive := elementSize_pos repeats
    have shifted := inductionHypothesis (before ++ element) restWhole
    rw [List.length_append, elementWhole] at shifted
    rw [List.flatten_cons, List.length_append, elementWhole, ← List.append_assoc before,
      ← Nat.add_assoc]
    have notEnd : before.length ≠
        before.length + description.payloadDescription.elementSize + elements.flatten.length := by
      omega
    have inside : before.length + description.payloadDescription.elementSize ≤
        (before ++ element ++ elements.flatten ++ after).length := by
      simp only [List.length_append]
      omega
    have here : ((before ++ element ++ elements.flatten ++ after).drop before.length).take
        description.payloadDescription.elementSize = element := by
      rw [List.append_assoc, List.append_assoc, List.drop_left, ← elementWhole, List.take_left]
    -- the loop goes on behind the element as it would at the start of the rest
    rw [processPayload_element repeats notEnd, processElement_inside repeats inside, here, shifted,
      List.mapM_cons]

/-- A loop over elements that no constraint can stop, and that does not meet the
    end of its range inside the buffer, runs off the end of the buffer. -/
theorem processPayload_beyond (repeats : description.payloadDescription.type.isElement)
    (unconstrained : description.payloadDescription.intConstraint = noConstraint)
    (inside : iter ≤ buffer.length)
    (never : ¬ (iter ≤ last ∧ description.payloadDescription.elementSize ∣ last - iter ∧
      last ≤ buffer.length)) :
    processPayload description buffer iter last = undefinedBehaviour := by
  induction distance : buffer.length - iter using Nat.strongRecOn generalizing iter with
  | ind remaining inductionHypothesis =>
    have notEnd : iter ≠ last := by
      rintro rfl
      exact never ⟨Nat.le_refl iter, by simp, inside⟩
    rw [processPayload_element repeats notEnd]
    -- either the next element is read and the end is missed again, or it ends outside
    by_cases nextInside : iter + description.payloadDescription.elementSize ≤ buffer.length
    · have elementLength : ((buffer.drop iter).take
          description.payloadDescription.elementSize).length =
            description.payloadDescription.elementSize := by
        rw [List.length_take, List.length_drop]
        omega
      obtain ⟨value, reads⟩ := (readElement_cases repeats elementLength).1
        (elementAllowed_of_unconstrained unconstrained)
      have positive := elementSize_pos repeats
      -- whole elements from the next position on would be whole elements from here
      have neverNext : ¬ (iter + description.payloadDescription.elementSize ≤ last ∧
          description.payloadDescription.elementSize ∣
            last - (iter + description.payloadDescription.elementSize) ∧
          last ≤ buffer.length) := by
        rintro ⟨below, divides, lastInside⟩
        refine never ⟨by omega, ?_, lastInside⟩
        have step : last - iter = last - (iter + description.payloadDescription.elementSize) +
            description.payloadDescription.elementSize := by
          omega
        rw [step]
        exact Nat.dvd_add divides (Nat.dvd_refl _)
      have closer : buffer.length - (iter + description.payloadDescription.elementSize) < remaining := by
        omega
      rw [processElement_inside repeats nextInside, reads.read, ok_bind,
        inductionHypothesis _ closer nextInside neverNext rfl]
      rfl
    · rw [processElement_of_lt repeats (Nat.lt_of_not_le nextInside)]
      rfl

/-! ## Payloads that are read at once -/

def atOnceValue (type : DhcpOptionPayloadType) (bytes : List UInt8) : DhcpOptionFieldRealValue :=
  if type = .string then .byteString bytes else .byteVector bytes

theorem toNetworkData_atOnceValue (type : DhcpOptionPayloadType) (bytes : List UInt8) :
    (atOnceValue type bytes).toNetworkData = .ok bytes := by
  unfold atOnceValue
  split <;> rfl

/-- The whole rest of the range is one value, and only a byte array may be too short. -/
theorem processPayload_atOnce (atOnce : ¬ description.payloadDescription.type.isElement)
    (payloaded : description.payloadDescription.type ≠ .none)
    (variableLength : description.payloadLength = variableDhcpOptionLength)
    (minLenSmall : 0 ≤ description.payloadDescription.minLenInElements ∧
      description.payloadDescription.minLenInElements < 256) (notEnd : iter ≠ last) :
    processPayload description buffer iter last = (do
      let bytes ← copyRange buffer iter (last - iter)
      if description.payloadDescription.type = .byteArray ∧
          bytes.length < description.payloadDescription.minLenInElements then
        throwRuntimeError "длина опции меньше чем минимальная"
      else return [atOnceValue description.payloadDescription.type bytes]) := by
  have sameMinLen := toNat_minLen minLenSmall
  rw [processPayload, if_neg notEnd]
  obtain ⟨code, length, type, isList, minLen, constraint⟩ := description
  dsimp only at *
  subst variableLength
  cases type with
  | none => exact absurd rfl payloaded
  | vendorSpecificField =>
    rw [processVendorSpecificField]
    cases copyRange buffer iter (last - iter) with
    | error fault => rfl
    | ok bytes => simp [atOnceValue]
  | string =>
    rw [processString]
    cases copyRange buffer iter (last - iter) with
    | error fault => rfl
    | ok bytes => simp [atOnceValue]
  | byteArray =>
    rw [processByteArray]
    cases copyRange buffer iter (last - iter) with
    | error fault => rfl
    | ok bytes =>
      by_cases short : (bytes.length : ℤ) < minLen
      -- the source compares with the minimal length cast to `unsigned int`
      · have shortUnsigned : bytes.length < (UInt32.ofInt minLen).toNat := by omega
        simp [short, shortUnsigned, throwRuntimeError]
      · have longUnsigned : ¬ bytes.length < (UInt32.ofInt minLen).toNat := by omega
        simp [short, longUnsigned, atOnceValue]
  | _ => exact absurd rfl atOnce

/-! ## Whole payloads -/

/-- The payload is read as these values, and the copied types are written back. -/
structure PayloadReads (description : DhcpOptionDescription) (payload : List UInt8)
    (values : List DhcpOptionFieldRealValue) : Prop where
  read : processPayload description payload 0 payload.length = .ok values
  written : isCopied description.payloadDescription.type →
    realValuesToNetworkData values = .ok payload

theorem mapM_readElement_cases {description : DhcpOptionPayloadDescription}
    (repeats : description.type.isElement) {elements : List (List UInt8)}
    (whole : ∀ element ∈ elements, element.length = description.elementSize) :
    (elements.all (elementAllowed description) →
      ∃ values, elements.mapM (readElement description) = .ok values ∧
        (isCopied description.type → realValuesToNetworkData values = .ok elements.flatten)) ∧
      (¬ elements.all (elementAllowed description) →
        Throws (elements.mapM (readElement description))) := by
  induction elements with
  | nil => exact ⟨fun _ => ⟨[], rfl, fun _ => rfl⟩, fun refused => absurd rfl refused⟩
  | cons element elements inductionHypothesis =>
    obtain ⟨elementWhole, restWhole⟩ := List.forall_mem_cons.mp whole
    obtain ⟨restRead, restRefused⟩ := inductionHypothesis restWhole
    obtain ⟨elementRead, elementRefused⟩ := readElement_cases repeats elementWhole
    rw [List.mapM_cons, List.all_cons]
    by_cases allowed : elementAllowed description element
    · obtain ⟨value, reads⟩ := elementRead allowed
      rw [allowed, Bool.true_and, reads.read, ok_bind]
      constructor
      · intro restAllowed
        obtain ⟨values, restOk, restWritten⟩ := restRead restAllowed
        refine ⟨value :: values, by rw [restOk]; rfl, ?_⟩
        intro copied
        rw [realValuesToNetworkData, reads.written copied, restWritten copied]
        rfl
      · intro restNotAllowed
        exact (restRefused restNotAllowed).bind _
    · rw [Bool.not_eq_true] at allowed
      rw [allowed, Bool.false_and]
      refine ⟨nofun, fun _ => ?_⟩
      exact (elementRefused (by rw [allowed]; exact nofun)).bind _

/-- A whole payload of repeated elements. -/
theorem elements_cases {description : DhcpOptionDescription} {payload : List UInt8}
    (repeats : description.payloadDescription.type.isElement)
    (whole : description.payloadDescription.elementSize ∣ payload.length) :
    ((pieces description.payloadDescription.elementSize payload).all
        (elementAllowed description.payloadDescription) →
      ∃ values, PayloadReads description payload values) ∧
      (¬ (pieces description.payloadDescription.elementSize payload).all
          (elementAllowed description.payloadDescription) →
        Throws (processPayload description payload 0 payload.length)) := by
  have equal : ∀ element ∈ pieces description.payloadDescription.elementSize payload,
      element.length = description.payloadDescription.elementSize :=
    fun _ member => length_of_mem_pieces whole member
  have alone := processPayload_whole repeats [] [] equal
  rw [flatten_pieces whole, List.nil_append, List.append_nil, List.length_nil, Nat.zero_add] at alone
  obtain ⟨read, refused⟩ := mapM_readElement_cases repeats equal
  constructor
  · intro allowed
    obtain ⟨values, valuesRead, written⟩ := read allowed
    rw [flatten_pieces whole] at written
    exact ⟨values, alone.trans valuesRead, written⟩
  · intro notAllowed
    rw [alone]
    exact refused notAllowed

/-- A whole payload is read as if it stood alone. -/
theorem processPayload_framed {code : ℤ} (row : RowSound code description)
    (payloaded : description.payloadDescription.type ≠ .none) (before after : List UInt8)
    {payload : List UInt8} (whole : WholeElements description.payloadDescription payload.length) :
    processPayload description (before ++ payload ++ after) before.length
        (before.length + payload.length) =
      processPayload description payload 0 payload.length := by
  by_cases repeats : description.payloadDescription.type.isElement
  · have equal : ∀ element ∈ pieces description.payloadDescription.elementSize payload,
        element.length = description.payloadDescription.elementSize :=
      fun _ member => length_of_mem_pieces (whole repeats) member
    have framed := processPayload_whole repeats before after equal
    have alone := processPayload_whole repeats [] [] equal
    rw [flatten_pieces (whole repeats)] at framed alone
    rw [List.nil_append, List.append_nil, List.length_nil, Nat.zero_add] at alone
    exact framed.trans alone.symm
  · by_cases empty : payload = []
    · subst empty
      rw [List.length_nil, Nat.add_zero, processPayload_end, processPayload_end]
    · have positive : 0 < payload.length := List.length_pos_iff.mpr empty
      have variableLength := row.variableLength payloaded repeats
      have notEnd : before.length ≠ before.length + payload.length := by omega
      -- the range is taken as one value, so only its bytes matter
      have sameBytes := copyRange_middle before after (by omega : 0 + payload.length ≤ payload.length)
      rw [Nat.add_zero] at sameBytes
      rw [processPayload_atOnce repeats payloaded variableLength row.minLenSmall notEnd,
        processPayload_atOnce repeats payloaded variableLength row.minLenSmall positive.ne,
        Nat.add_sub_cancel_left, Nat.sub_zero, sameBytes]

/-- A whole payload is read, unless a value is refused. -/
theorem payload_cases {code : ℤ} (row : RowSound code description)
    (payloaded : description.payloadDescription.type ≠ .none) {payload : List UInt8}
    (whole : WholeElements description.payloadDescription payload.length) :
    (payloadAllowed description.payloadDescription payload →
      ∃ values, PayloadReads description payload values) ∧
      (¬ payloadAllowed description.payloadDescription payload →
        Throws (processPayload description payload 0 payload.length)) := by
  by_cases repeats : description.payloadDescription.type.isElement
  · rw [payloadAllowed_of_repeats repeats]
    exact elements_cases repeats (whole repeats)
  · by_cases empty : payload = []
    · subst empty
      refine ⟨fun _ => ⟨[], processPayload_end, fun _ => rfl⟩, ?_⟩
      intro refused
      exact absurd (payloadAllowed_nil payloaded) refused
    · have positive : 0 < payload.length := List.length_pos_iff.mpr empty
      have copied : copyRange payload 0 (payload.length - 0) = .ok payload := by
        rw [Nat.sub_zero, copyRange_of_le (by omega), drop_zero_take rfl]
      have read : processPayload description payload 0 payload.length = _ :=
        processPayload_atOnce repeats payloaded (row.variableLength payloaded repeats)
          row.minLenSmall positive.ne
      rw [copied, ok_bind] at read
      rw [payloadAllowed_of_atOnce repeats payloaded empty]
      constructor
      · intro longEnough
        rw [if_neg longEnough] at read
        refine ⟨_, read, fun _ => ?_⟩
        rw [realValuesToNetworkData, toNetworkData_atOnceValue]
        simp [realValuesToNetworkData]
      · intro tooShort
        rw [if_pos (not_not.mp tooShort)] at read
        rw [read]
        exact throws_runtimeError _

end Reading

end Klevret.Verified.Options
