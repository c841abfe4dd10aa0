import Klevret.Verified.Options.Constructor

/-! # Options on the wire

The encoder writes an integer as its memory image, while the decoder reads the
network order, so on a little-endian host the bytes of such an element come out
reversed (`payloadOnWire`).  An option therefore survives the wire exactly when
there is nothing to reverse (`option_survives_iff`), and every option but a flag,
which the encoder forgets, is framed by its length byte (`option_framed_iff`). -/

namespace Klevret.Verified.Options

open Klevret.Base Klevret.Dhcp DhcpOptionPayloadDescription

section Wire

variable [Host] {description : DhcpOptionDescription} {element payload : List UInt8}
  {code : ℤ} {option : DhcpOption}

/-! ## Elements -/

/-- An element as it is written back. -/
def elementOnWire (type : DhcpOptionPayloadType) (element : List UInt8) : List UInt8 :=
  if Host.native = .big ∨ isCopied type then element else element.reverse

theorem elementOnWire_of_copied {type : DhcpOptionPayloadType} (copied : isCopied type) :
    elementOnWire type element = element := if_pos (Or.inr copied)

@[simp] theorem length_elementOnWire (type : DhcpOptionPayloadType) (element : List UInt8) :
    (elementOnWire type element).length = element.length := by
  unfold elementOnWire
  split
  next => rfl
  next => exact List.length_reverse

/-- The memory image of a number that was read in network order. -/
theorem memoryImage_of_read {size : ℕ} {type : DhcpOptionPayloadType} {number : BitVec (8 * size)}
    (reordered : ¬ isCopied type) (whole : element.length = size)
    (read : number.toNat = bigEndianValue element) :
    memoryImage number = elementOnWire type element := by
  subst whole
  rw [memoryImage, elementOnWire, read]
  cases Host.native with
  | little =>
    have inverse := littleEndianBytes_value element.reverse
    rw [List.length_reverse] at inverse
    rw [if_neg (not_or.mpr ⟨nofun, reordered⟩)]
    exact inverse
  | big =>
    rw [if_pos (Or.inl rfl)]
    exact bigEndianBytes_value element

omit [Host] in
/-- The check of an unsigned integer lets its own value through. -/
theorem eq_of_checkedUint {description : DhcpOptionPayloadDescription} {value : UInt32}
    {result found : DhcpOptionFieldRealValue}
    (unsigned : description.type = .uint32 ∨ description.type = .uint16 ∨
      description.type = .uint8 ∨ description.type = .uintEnum)
    (read : checkedValue (description.isCorrectUint value) result = .ok found) : result = found := by
  rw [checkedValue_isCorrectUint rfl unsigned] at read
  split at read
  next => exact Except.ok.inj read
  next => cases read

/-- What is read from an element is written back in the order of the host. -/
theorem toNetworkData_of_read {description : DhcpOptionPayloadDescription}
    {value : DhcpOptionFieldRealValue} (repeats : description.type.isElement)
    (whole : element.length = description.elementSize)
    (read : readElement description element = .ok value) (notFlag : description.type ≠ .flag) :
    value.toNetworkData = .ok (elementOnWire description.type element) := by
  by_cases copied : isCopied description.type
  · obtain ⟨allowedReads, refusedThrows⟩ := readElement_cases repeats whole
    have allowed : elementAllowed description element := by
      by_contra refused
      have throws := refusedThrows refused
      rw [read] at throws
      exact not_throws_ok _ throws
    obtain ⟨found, reads⟩ := allowedReads allowed
    have same := reads.read
    rw [read] at same
    cases same
    rw [elementOnWire_of_copied copied]
    exact reads.written copied
  · obtain ⟨type, isList, minLen, constraint⟩ := description
    cases type with
    | uint16 =>
      have length : element.length = 2 := whole
      obtain ⟨number, numberRead, numberEq⟩ := networkToHostEndian_of_whole length
      change processUint16 _ element 0 (0 + 2) = .ok value at read
      rw [processUint16, numberRead, ok_bind] at read
      rw [← eq_of_checkedUint (by simp) read, ← memoryImage_of_read copied length numberEq]
      rfl
    | uint32 =>
      have length : element.length = 4 := whole
      obtain ⟨number, numberRead, numberEq⟩ := networkToHostEndian_of_whole length
      change processUint32 _ element 0 (0 + 4) = .ok value at read
      rw [processUint32, numberRead, ok_bind] at read
      rw [← eq_of_checkedUint (by simp) read, ← memoryImage_of_read copied length numberEq]
      rfl
    | int32 =>
      have length : element.length = 4 := whole
      obtain ⟨number, numberRead, numberEq⟩ := networkToHostEndian_of_whole length
      change processInt32 _ element 0 (0 + 4) = .ok value at read
      rw [processInt32, numberRead, ok_bind, checkedValue_isCorrectInt rfl] at read
      split at read
      next =>
        cases read
        rw [← memoryImage_of_read copied length numberEq]
        rfl
      next => cases read
    | flag => exact absurd rfl notFlag
    | none => cases repeats
    | _ => exact absurd rfl copied

/-! ## Payloads -/

/-- A payload as it is written back: element by element. -/
def payloadOnWire (description : DhcpOptionPayloadDescription) (payload : List UInt8) : List UInt8 :=
  if description.type.isElement then
    ((pieces description.elementSize payload).map (elementOnWire description.type)).flatten
  else payload

theorem length_payloadOnWire {description : DhcpOptionPayloadDescription}
    (whole : WholeElements description payload.length) :
    (payloadOnWire description payload).length = payload.length := by
  unfold payloadOnWire
  split
  next repeats =>
    conv_rhs => rw [← flatten_pieces (whole repeats)]
    rw [List.length_flatten, List.length_flatten, List.map_map]
    congr 1
    exact List.map_congr_left fun element _ => length_elementOnWire description.type element
  next => rfl

omit [Host] in
theorem copied_of_atOnce {description : DhcpOptionPayloadDescription}
    (payloaded : description.type ≠ .none) (atOnce : ¬ description.type.isElement) :
    isCopied description.type := by
  obtain ⟨type, isList, minLen, constraint⟩ := description
  cases type with
  | none => exact absurd rfl payloaded
  | string | byteArray | vendorSpecificField => rfl
  | _ => exact absurd rfl atOnce

/-- The payload comes back as it was exactly when no element comes back reversed. -/
theorem payloadOnWire_eq_iff {description : DhcpOptionPayloadDescription}
    (whole : WholeElements description payload.length) (payloaded : description.type ≠ .none) :
    payloadOnWire description payload = payload ↔
      ∀ element ∈ pieces description.elementSize payload,
        elementOnWire description.type element = element := by
  unfold payloadOnWire
  split
  next repeats =>
    conv_lhs =>
      rhs
      rw [← flatten_pieces (whole repeats)]
    exact flatten_map_eq_iff fun element _ => length_elementOnWire description.type element
  next atOnce =>
    exact iff_of_true rfl fun element _ =>
      elementOnWire_of_copied (copied_of_atOnce payloaded atOnce)

theorem realValuesToNetworkData_of_mapM {description : DhcpOptionPayloadDescription}
    {elements : List (List UInt8)} {values : List DhcpOptionFieldRealValue}
    (repeats : description.type.isElement) (notFlag : description.type ≠ .flag)
    (whole : ∀ element ∈ elements, element.length = description.elementSize)
    (read : elements.mapM (readElement description) = .ok values) :
    realValuesToNetworkData values =
      .ok (elements.map (elementOnWire description.type)).flatten := by
  induction elements generalizing values with
  | nil =>
    cases read
    rfl
  | cons element elements inductionHypothesis =>
    obtain ⟨elementWhole, restWhole⟩ := List.forall_mem_cons.mp whole
    rw [List.mapM_cons] at read
    obtain ⟨value, valueRead, rest⟩ := bind_eq_ok.mp read
    obtain ⟨restValues, restRead, made⟩ := bind_eq_ok.mp rest
    cases made
    rw [realValuesToNetworkData, toNetworkData_of_read repeats elementWhole valueRead notFlag,
      inductionHypothesis restWhole restRead]
    rfl

/-- The values of a payload are its elements, read one by one. -/
theorem mapM_of_processPayload {values : List DhcpOptionFieldRealValue}
    (repeats : description.payloadDescription.type.isElement)
    (whole : description.payloadDescription.elementSize ∣ payload.length)
    (read : processPayload description payload 0 payload.length = .ok values) :
    (pieces description.payloadDescription.elementSize payload).mapM
      (readElement description.payloadDescription) = .ok values := by
  have alone := processPayload_whole repeats [] []
    (fun _ member => length_of_mem_pieces whole member)
  rw [flatten_pieces whole, List.nil_append, List.append_nil, List.length_nil, Nat.zero_add] at alone
  exact alone.symm.trans read

/-- What is read from a payload is written back in the order of the host. -/
theorem realValuesToNetworkData_of_reads {values : List DhcpOptionFieldRealValue}
    (payloaded : description.payloadDescription.type ≠ .none)
    (notFlag : description.payloadDescription.type ≠ .flag)
    (whole : WholeElements description.payloadDescription payload.length)
    (reads : PayloadReads description payload values) :
    realValuesToNetworkData values = .ok (payloadOnWire description.payloadDescription payload) := by
  by_cases repeats : description.payloadDescription.type.isElement
  · rw [payloadOnWire, if_pos repeats]
    exact realValuesToNetworkData_of_mapM repeats notFlag
      (fun _ member => length_of_mem_pieces (whole repeats) member)
      (mapM_of_processPayload repeats (whole repeats) reads.read)
  · rw [payloadOnWire, if_neg repeats]
    exact reads.written (copied_of_atOnce payloaded repeats)

/-- A flag is one byte, whose value the encoder has no branch for. -/
theorem realValuesToNetworkData_of_flag {values : List DhcpOptionFieldRealValue}
    (isFlag : description.payloadDescription.type = .flag)
    (oneByte : payload.length = 1)
    (read : processPayload description payload 0 payload.length = .ok values) :
    realValuesToNetworkData values = undefinedBehaviour := by
  obtain ⟨byte, rfl⟩ := List.length_eq_one_iff.mp oneByte
  have repeats : description.payloadDescription.type.isElement := by
    rw [isFlag]
    rfl
  have size : description.payloadDescription.elementSize = 1 := by
    rw [elementSize, getOneElementPayloadLengthInBytes, isFlag]
    rfl
  have readOne := mapM_of_processPayload repeats (by rw [size]; exact one_dvd _) read
  have onePiece : pieces 1 [byte] = [[byte]] := by simp [pieces, chunks]
  rw [size, onePiece, List.mapM_cons] at readOne
  obtain ⟨value, valueRead, rest⟩ := bind_eq_ok.mp readOne
  obtain ⟨restValues, _, made⟩ := bind_eq_ok.mp rest
  cases made
  rw [readElement, processElement, isFlag] at valueRead
  cases valueRead
  rfl

/-! ## Options -/

omit [Host] in
set_option maxRecDepth 4000 in
/-- Every flag has the fixed length of one byte. -/
theorem length_of_flag (admits : Admits code payload.length description)
    (isFlag : description.payloadDescription.type = .flag) : payload.length = 1 := by
  have allRows : ∀ entry ∈ optionsDescriptions,
      entry.2.payloadDescription.type = .flag → entry.2.payloadLength = 1 := by
    decide
  obtain ⟨before, after, split, -⟩ := List.lookup_eq_some_iff.mp admits.found
  have member : (code, description) ∈ optionsDescriptions := by
    rw [split]
    exact List.mem_append_right _ (List.mem_cons_self ..)
  have oneByte := allRows (code, description) member isFlag
  obtain variableLength | fixedLength := admits.fits
  · rw [oneByte] at variableLength
    cases variableLength
  · dsimp only at oneByte
    omega

namespace Constructed

variable (constructed : Constructed code payload option)

include constructed

theorem toNetworkData_of_notFlag (notFlag : option.description.payloadDescription.type ≠ .flag) :
    option.toNetworkData = .ok (UInt8.ofInt code :: UInt8.ofInt payload.length ::
      payloadOnWire option.description.payloadDescription payload) := by
  rw [constructed.toNetworkData_eq, realValuesToNetworkData_of_reads
    constructed.admits.payloaded notFlag constructed.whole constructed.reads]
  rfl

theorem toNetworkData_of_flag (isFlag : option.description.payloadDescription.type = .flag) :
    option.toNetworkData = undefinedBehaviour := by
  rw [constructed.toNetworkData_eq, realValuesToNetworkData_of_flag isFlag
    (length_of_flag constructed.admits isFlag) constructed.reads.read]
  rfl

end Constructed

/-- The option comes back from the payload part of its own bytes. -/
def SurvivesWire (option : DhcpOption) (payload : List UInt8) : Prop :=
  ∃ data again, option.toNetworkData = .ok data ∧ data.drop 2 = payload ∧
    optionOf option.description.code (data.drop 2) = .ok again ∧
    again.description.code = option.description.code ∧ again.realValues = option.realValues

/-- The option is its code, a length byte and as many bytes as it says. -/
def Framed (option : DhcpOption) : Prop :=
  ∃ (code length : UInt8) (bytes : List UInt8), option.toNetworkData = .ok (code :: length :: bytes) ∧
    (code.toNat : ℤ) = option.description.code ∧ bytes.length = length.toNat

/-- An option survives the wire exactly when writing it reverses nothing. -/
theorem option_survives_iff {before after : List UInt8}
    (made : DhcpOption.construct code payload.length (before ++ payload ++ after) before.length
      (before.length + payload.length) = .ok option)
    (notFlag : option.description.payloadDescription.type ≠ .flag) :
    SurvivesWire option payload ↔
      Host.native = .big ∨ isCopied option.description.payloadDescription.type ∨
        ∀ element ∈ pieces option.description.payloadDescription.elementSize payload,
          element.reverse = element := by
  have alone := optionOf_of_construct made
  have constructed := constructed_of_optionOf alone
  have written := constructed.toNetworkData_of_notFlag notFlag
  have sameCode := constructed.code_eq
  have survives_iff : SurvivesWire option payload ↔
      payloadOnWire option.description.payloadDescription payload = payload := by
    constructor
    · rintro ⟨data, _, writtenToo, same, _⟩
      rw [written] at writtenToo
      cases writtenToo
      exact same
    · intro same
      refine ⟨_, option, written, same, ?_, rfl, rfl⟩
      rw [sameCode, List.drop_succ_cons, List.drop_succ_cons, List.drop_zero, same]
      exact alone
  rw [survives_iff, payloadOnWire_eq_iff constructed.whole constructed.admits.payloaded, ← or_assoc]
  by_cases kept : Host.native = .big ∨ isCopied option.description.payloadDescription.type
  · exact iff_of_true (fun element _ => if_pos kept) (Or.inl kept)
  · rw [or_iff_right kept]
    simp only [elementOnWire, if_neg kept]

theorem option_framed_iff {before after : List UInt8}
    (made : DhcpOption.construct code payload.length (before ++ payload ++ after) before.length
      (before.length + payload.length) = .ok option) (fits : payload.length ≤ 255) :
    Framed option ↔ option.description.payloadDescription.type ≠ .flag := by
  have constructed := constructed_of_optionOf (optionOf_of_construct made)
  have codeRange := constructed.code_range
  have sameCode := constructed.code_eq
  constructor
  · rintro ⟨first, length, bytes, written, _, _⟩ isFlag
    rw [constructed.toNetworkData_of_flag isFlag] at written
    cases written
  · intro notFlag
    refine ⟨_, _, _, constructed.toNetworkData_of_notFlag notFlag, ?_, ?_⟩
    · rw [sameCode, UInt8.ofInt, UInt8.toNat_ofNat']
      omega
    · rw [length_payloadOnWire constructed.whole, UInt8.ofInt, UInt8.toNat_ofNat']
      omega

end Wire

section

attribute [local instance] littleEndianHost

/-- A lease time of one hour. -/
def leaseTimeOption : DhcpOption :=
  ⟨4, ⟨51, 4, ⟨.uint32, false, 0, noConstraint⟩⟩, [.uint32 3600]⟩

/-- IP forwarding, switched on. -/
def forwardingOption : DhcpOption := ⟨1, ⟨19, 1, ⟨.flag, false, 0, noConstraint⟩⟩, [.flag true]⟩

def subnetMaskPayload : List UInt8 := [255, 255, 0, 0]

def subnetMaskOption : DhcpOption :=
  ⟨4, ⟨1, 4, ⟨.subnetMask, false, 0, noConstraint⟩⟩, [.subnetMask ⟨#v[255, 255, 0, 0]⟩]⟩

theorem subnetMaskOption_made :
    DhcpOption.construct 1 subnetMaskPayload.length ([] ++ subnetMaskPayload ++ [])
      ([] : List UInt8).length (([] : List UInt8).length + subnetMaskPayload.length) =
        .ok subnetMaskOption := by
  decide +kernel

theorem option_survives_iff_sample :
    SurvivesWire subnetMaskOption subnetMaskPayload ↔
      Host.native = .big ∨ isCopied subnetMaskOption.description.payloadDescription.type ∨
        ∀ element ∈ pieces subnetMaskOption.description.payloadDescription.elementSize
          subnetMaskPayload, element.reverse = element :=
  option_survives_iff subnetMaskOption_made (by decide)

/-- On a little-endian host one hour comes back as 270401536 seconds. -/
theorem lease_time_reversed :
    DhcpOption.construct 51 4 [0, 0, 14, 16] 0 4 = .ok leaseTimeOption ∧
      leaseTimeOption.toNetworkData = .ok [51, 4, 16, 14, 0, 0] ∧
      ¬ SurvivesWire leaseTimeOption [0, 0, 14, 16] := by
  have written : leaseTimeOption.toNetworkData = .ok [51, 4, 16, 14, 0, 0] := by decide +kernel
  refine ⟨by decide +kernel, written, ?_⟩
  rintro ⟨data, again, writtenToo, same, _⟩
  rw [written] at writtenToo
  cases writtenToo
  cases same

theorem option_framed_iff_sample :
    Framed subnetMaskOption ↔ subnetMaskOption.description.payloadDescription.type ≠ .flag :=
  option_framed_iff subnetMaskOption_made (by decide)

/-- A flag is read, and cannot be written. -/
theorem flag_unframed :
    DhcpOption.construct 19 1 [1] 0 1 = .ok forwardingOption ∧ ¬ Framed forwardingOption := by
  refine ⟨by decide +kernel, ?_⟩
  rintro ⟨code, length, bytes, written, _⟩
  cases written

end

end Klevret.Verified.Options
