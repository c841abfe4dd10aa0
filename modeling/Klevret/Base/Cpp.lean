import Mathlib.Data.List.Induction
import Mathlib.Tactic.Common

/-! # C++ computations over byte buffers

`Cpp α` is a C++ computation: it returns a value, throws, or runs into undefined
behaviour.  A buffer is a byte list and an iterator into it an index, so that
dereferencing an iterator that does not lie before the end of the buffer is
undefined behaviour rather than a default byte. -/

namespace Klevret.Base

/-- The exceptions of the standard library that the modelled code throws.  The
    text of `runtimeErrorFrom` starts `offset` bytes into a string literal. -/
inductive Exception where
  | runtimeError (what : String)
  | runtimeErrorFrom (literal : String) (offset : ℕ)
  | outOfRange
  | badVariantAccess
deriving DecidableEq, Repr

/-- Why a computation stops short of a value. -/
inductive Fault where
  | thrown (exception : Exception)
  | undefinedBehaviour
deriving DecidableEq, Repr

abbrev Cpp := Except Fault

/-- `throw std::runtime_error(what)`. -/
def throwRuntimeError {α : Type} (what : String) : Cpp α :=
  .error (.thrown (.runtimeError what))

/-- `throw std::runtime_error(literal + offset)` with a `char` offset: the sum is
    a pointer into the literal, and undefined past the literal's end. -/
def throwRuntimeErrorFrom {α : Type} (literal : String) (offset : Char) : Cpp α :=
  if offset.toNat ≤ literal.utf8ByteSize then
    .error (.thrown (.runtimeErrorFrom literal offset.toNat))
  else
    .error .undefinedBehaviour

def undefinedBehaviour {α : Type} : Cpp α :=
  .error .undefinedBehaviour

/-- The computation ends by an exception. -/
def Throws {α : Type} (computation : Cpp α) : Prop :=
  ∃ exception, computation = .error (.thrown exception)

/-- The computation ends by a value. -/
def Returns {α : Type} (computation : Cpp α) : Prop :=
  ∃ value, computation = .ok value

section Outcome

variable {α β : Type}

@[simp] theorem ok_bind (value : α) (continuation : α → Cpp β) :
    (Except.ok value >>= continuation : Cpp β) = continuation value := rfl

@[simp] theorem error_bind (fault : Fault) (continuation : α → Cpp β) :
    ((Except.error fault : Cpp α) >>= continuation : Cpp β) = .error fault := rfl

@[simp] theorem pure_eq_ok (value : α) : (pure value : Cpp α) = .ok value := rfl

theorem bind_eq_ok {computation : Cpp α} {continuation : α → Cpp β} {result : β} :
    (computation >>= continuation : Cpp β) = .ok result ↔
      ∃ value, computation = .ok value ∧ continuation value = .ok result := by
  cases computation with
  | ok value => simp
  | error fault => simp

@[simp] theorem returns_ok (value : α) : Returns (.ok value : Cpp α) := ⟨value, rfl⟩

@[simp] theorem not_returns_error (fault : Fault) : ¬ Returns (.error fault : Cpp α) := by
  rintro ⟨value, impossible⟩
  cases impossible

instance decidableReturns (computation : Cpp α) : Decidable (Returns computation) :=
  match computation with
  | .ok value => isTrue (returns_ok value)
  | .error fault => isFalse (not_returns_error fault)

@[simp] theorem throws_runtimeError (what : String) : Throws (throwRuntimeError what : Cpp α) :=
  ⟨_, rfl⟩

@[simp] theorem not_throws_ok (value : α) : ¬ Throws (.ok value : Cpp α) := by
  rintro ⟨exception, impossible⟩
  cases impossible

@[simp] theorem not_throws_undefinedBehaviour : ¬ Throws (undefinedBehaviour : Cpp α) := by
  rintro ⟨exception, impossible⟩
  cases impossible

theorem ok_ne_undefinedBehaviour (value : α) : (.ok value : Cpp α) ≠ undefinedBehaviour := by
  intro same
  cases same

theorem Throws.bind {computation : Cpp α} (throws : Throws computation)
    (continuation : α → Cpp β) : Throws (computation >>= continuation) := by
  obtain ⟨exception, rfl⟩ := throws
  exact ⟨exception, rfl⟩

theorem throws_bind_iff {computation : Cpp α} {continuation : α → Cpp β} :
    Throws (computation >>= continuation) ↔
      Throws computation ∨ ∃ value, computation = .ok value ∧ Throws (continuation value) := by
  cases computation with
  | ok value => simp
  | error fault => simp [Throws]

/-- A loop over a list throws at the first item whose turn throws. -/
theorem throws_foldlM_iff {turn : β → α → Cpp β} {items : List α} {start : β} :
    Throws (items.foldlM turn start) ↔
      ∃ before item after state, items = before ++ item :: after ∧
        before.foldlM turn start = .ok state ∧ Throws (turn state item) := by
  constructor
  · intro throws
    induction items generalizing start with
    | nil => exact absurd throws (not_throws_ok start)
    | cons item items inductionHypothesis =>
      rw [List.foldlM_cons] at throws
      obtain first | ⟨next, isNext, later⟩ := throws_bind_iff.mp throws
      · exact ⟨[], item, items, start, rfl, rfl, first⟩
      · obtain ⟨before, found, after, state, rfl, isState, atItem⟩ := inductionHypothesis later
        refine ⟨item :: before, found, after, state, rfl, ?_, atItem⟩
        rw [List.foldlM_cons, isNext]
        exact isState
  · rintro ⟨before, item, after, state, rfl, isState, throws⟩
    rw [List.foldlM_append, isState, ok_bind, List.foldlM_cons]
    exact throws.bind _

theorem Throws.not_returns {computation : Cpp α} (throws : Throws computation) :
    ¬ Returns computation := by
  obtain ⟨exception, rfl⟩ := throws
  exact not_returns_error _

theorem Throws.defined {computation : Cpp α} (throws : Throws computation) :
    computation ≠ undefinedBehaviour := by
  rintro rfl
  exact not_throws_undefinedBehaviour throws

theorem defined_bind {computation : Cpp α} {continuation : α → Cpp β}
    (defined : computation ≠ undefinedBehaviour)
    (defined' : ∀ value, continuation value ≠ undefinedBehaviour) :
    (computation >>= continuation : Cpp β) ≠ undefinedBehaviour := by
  cases computation with
  | ok value => exact defined' value
  | error fault =>
    intro same
    cases same
    exact defined rfl

theorem foldlM_defined {turn : β → α → Cpp β} (defined : ∀ state item, turn state item ≠
    undefinedBehaviour) (items : List α) (start : β) :
    items.foldlM turn start ≠ undefinedBehaviour := by
  induction items generalizing start with
  | nil => exact ok_ne_undefinedBehaviour start
  | cons item items inductionHypothesis =>
    rw [List.foldlM_cons]
    exact defined_bind (defined start item) inductionHypothesis

theorem not_returns_bind {computation : Cpp α} (fails : ¬ Returns computation)
    (continuation : α → Cpp β) : ¬ Returns (computation >>= continuation) := by
  rintro ⟨result, returned⟩
  obtain ⟨value, computed, -⟩ := bind_eq_ok.mp returned
  exact fails ⟨value, computed⟩

/-- A computation returns, throws or is undefined. -/
theorem returns_or_throws_or_undefined (computation : Cpp α) :
    Returns computation ∨ Throws computation ∨ computation = undefinedBehaviour := by
  cases computation with
  | ok value => exact Or.inl (returns_ok value)
  | error fault =>
    cases fault with
    | thrown exception => exact Or.inr (Or.inl ⟨exception, rfl⟩)
    | undefinedBehaviour => exact Or.inr (Or.inr rfl)

/-- The computation is defined, and a value that it returns satisfies `Post`. -/
def Safe (Post : α → Prop) (computation : Cpp α) : Prop :=
  computation ≠ undefinedBehaviour ∧ ∀ value, computation = .ok value → Post value

@[simp] theorem safe_ok_iff {Post : α → Prop} {value : α} :
    Safe Post (.ok value : Cpp α) ↔ Post value := by
  constructor
  · intro safe
    exact safe.2 value rfl
  · intro post
    refine ⟨ok_ne_undefinedBehaviour value, ?_⟩
    rintro _ ⟨⟩
    exact post

theorem Throws.safe {computation : Cpp α} (throws : Throws computation) (Post : α → Prop) :
    Safe Post computation :=
  ⟨throws.defined, fun value returned => absurd ⟨value, returned⟩ throws.not_returns⟩

@[simp] theorem not_safe_undefinedBehaviour (Post : α → Prop) :
    ¬ Safe Post (undefinedBehaviour : Cpp α) := by
  intro safe
  exact safe.1 rfl

theorem safe_bind_iff {Post : β → Prop} {computation : Cpp α} {continuation : α → Cpp β} :
    Safe Post (computation >>= continuation) ↔
      Safe (fun value => Safe Post (continuation value)) computation := by
  obtain ⟨value, rfl⟩ | throws | rfl := returns_or_throws_or_undefined computation
  · rw [ok_bind, safe_ok_iff]
  · exact iff_of_true ((throws.bind continuation).safe Post) (throws.safe _)
  · exact iff_of_false (not_safe_undefinedBehaviour Post) (not_safe_undefinedBehaviour _)

theorem foldlM_append_singleton (turn : β → α → Cpp β) (items : List α) (item : α) (start : β) :
    (items ++ [item]).foldlM turn start = items.foldlM turn start >>= fun state => turn state item := by
  simp only [List.foldlM_append, List.foldlM_cons, List.foldlM_nil, bind_pure]

/-- What every turn of a loop keeps holds of what the loop returns. -/
theorem foldlM_keeps {turn : β → α → Cpp β} (Inv : β → Prop)
    (turnKeeps : ∀ state item next, Inv state → turn state item = .ok next → Inv next)
    {start : β} (atStart : Inv start) {items : List α} {last : β}
    (reached : items.foldlM turn start = .ok last) : Inv last := by
  induction items generalizing start with
  | nil =>
    cases reached
    exact atStart
  | cons item items inductionHypothesis =>
    rw [List.foldlM_cons] at reached
    obtain ⟨next, turned, rest⟩ := bind_eq_ok.mp reached
    exact inductionHypothesis (turnKeeps start item next atStart turned) rest

/-- The exact guard of a loop.  If one turn leads on from a good state safely just when the guard
    holds there, then all the beginnings of the loop are safe just when the guard holds at every
    turn that is reached. -/
theorem prefixes_safe_iff {turn : β → α → Cpp β} {start : β} (Inv : β → Prop)
    {Post : List α → β → Prop} {Guard : List α → β → α → Prop} (invStart : Inv start)
    (turnKeeps : ∀ state item next, Inv state → turn state item = .ok next → Inv next)
    (postStart : Post [] start)
    (exact : ∀ before item state, Inv state → Post before state →
      (Safe (Post (before ++ [item])) (turn state item) ↔ Guard before state item))
    (items : List α) :
    (∀ before, before <+: items → Safe (Post before) (before.foldlM turn start)) ↔
      ∀ before item after, items = before ++ item :: after →
        ∀ state, before.foldlM turn start = .ok state → Guard before state item := by
  constructor
  · rintro safe before item after rfl state reached
    have inv := foldlM_keeps Inv turnKeeps invStart reached
    have post := (safe before (List.prefix_append _ _)).2 state reached
    have safeNext := safe (before ++ [item]) ⟨after, by simp⟩
    rw [foldlM_append_singleton, reached, ok_bind] at safeNext
    exact (exact before item state inv post).mp safeNext
  · intro guarded before
    induction before using List.reverseRecOn with
    | nil =>
      intro _
      exact safe_ok_iff.mpr postStart
    | append_singleton before item inductionHypothesis =>
      rintro ⟨after, rfl⟩
      have safeHere := inductionHypothesis ⟨[item] ++ after, by simp⟩
      rw [foldlM_append_singleton, safe_bind_iff]
      refine ⟨safeHere.1, ?_⟩
      intro state reached
      have inv := foldlM_keeps Inv turnKeeps invStart reached
      apply (exact before item state inv (safeHere.2 state reached)).mpr
      exact guarded before item after (by simp) state reached

/-- Being defined is returning or throwing. -/
theorem defined_iff {computation : Cpp α} :
    computation ≠ undefinedBehaviour ↔ Returns computation ∨ Throws computation := by
  constructor
  · intro defined
    obtain returns | throws | undefined := returns_or_throws_or_undefined computation
    · exact Or.inl returns
    · exact Or.inr throws
    · exact absurd undefined defined
  · rintro (⟨value, rfl⟩ | throws)
    · exact ok_ne_undefinedBehaviour value
    · exact throws.defined

end Outcome

/-! ## Buffers -/

/-- `*iter`. -/
def deref (buffer : List UInt8) (iter : ℕ) : Cpp UInt8 :=
  match buffer[iter]? with
  | some byte => .ok byte
  | none => undefinedBehaviour

/-- `buffer.at(index)`. -/
def checkedAt (buffer : List UInt8) (index : ℕ) : Cpp UInt8 :=
  match buffer[index]? with
  | some byte => .ok byte
  | none => .error (.thrown .outOfRange)

/-- `std::string(pointer)` over the memory behind `pointer`: the bytes up to the first
    NUL, past the end of whatever `pointer` points to. -/
def cString (memory : List UInt8) : Cpp (List UInt8) :=
  if 0 ∈ memory then .ok (memory.takeWhile (· ≠ 0)) else undefinedBehaviour

/-- The `count` bytes read through an iterator that starts at `iter`. -/
def copyRange (buffer : List UInt8) (iter : ℕ) : ℕ → Cpp (List UInt8)
  | 0 => .ok []
  | count + 1 => do
    let byte ← deref buffer iter
    let bytes ← copyRange buffer (iter + 1) count
    return byte :: bytes

/-- The bytes read by a loop that fills at most `room` cells and stops at `last`. -/
def copyUntil (buffer : List UInt8) (iter last : ℕ) : ℕ → Cpp (List UInt8)
  | 0 => .ok []
  | room + 1 =>
    if iter = last then .ok []
    else do
      let byte ← deref buffer iter
      let bytes ← copyUntil buffer (iter + 1) last room
      return byte :: bytes

/-- A `std::array` filled by such a loop; a range with too few bytes is an error. -/
def fillArray (size : ℕ) (buffer : List UInt8) (iter last : ℕ) (tooShort : String) :
    Cpp (Vector UInt8 size) := do
  let bytes ← copyUntil buffer iter last size
  if full : bytes.length = size then return ⟨bytes.toArray, full⟩
  else throwRuntimeError tooShort

theorem deref_of_lt {buffer : List UInt8} {iter : ℕ} (inside : iter < buffer.length) :
    deref buffer iter = .ok buffer[iter] := by
  simp [deref, inside]

theorem deref_of_le {buffer : List UInt8} {iter : ℕ} (outside : buffer.length ≤ iter) :
    deref buffer iter = undefinedBehaviour := by
  simp [deref, outside]

/-- A buffer is turned into the string of its own bytes exactly when it holds no NUL and
    there is one right behind it. -/
theorem cString_append_eq_iff (buffer behind : List UInt8) :
    cString (buffer ++ behind) = .ok buffer ↔ 0 ∉ buffer ∧ behind.head? = some 0 := by
  induction buffer with
  | nil =>
    cases behind with
    | nil => simp [cString, undefinedBehaviour]
    | cons byte behind =>
      by_cases isNul : byte = 0
      · simp [cString, isNul]
      · simp [cString, isNul, undefinedBehaviour]
        split <;> simp
  | cons byte buffer inductionHypothesis =>
    by_cases isNul : byte = 0
    · simp [cString, isNul]
    · have notNul : ¬ 0 = byte := fun same => isNul same.symm
      rw [List.mem_cons, not_or, and_assoc, and_iff_right notNul, ← inductionHypothesis]
      simp only [cString, List.cons_append, List.mem_cons, notNul, false_or]
      split
      · simp [isNul]
      · simp [undefinedBehaviour]

theorem copyRange_of_le {buffer : List UInt8} {iter count : ℕ}
    (inside : iter + count ≤ buffer.length) :
    copyRange buffer iter count = .ok ((buffer.drop iter).take count) := by
  induction count generalizing iter with
  | zero => simp [copyRange]
  | succ count inductionHypothesis =>
    have iterInside : iter < buffer.length := by omega
    rw [copyRange, deref_of_lt iterInside, inductionHypothesis (by omega),
      List.drop_eq_getElem_cons iterInside, List.take_succ_cons]
    rfl

theorem copyRange_of_lt {buffer : List UInt8} {iter count : ℕ} (nonempty : 0 < count)
    (outside : buffer.length < iter + count) :
    copyRange buffer iter count = undefinedBehaviour := by
  induction count generalizing iter with
  | zero => omega
  | succ count inductionHypothesis =>
    obtain iterInside | iterOutside := Nat.lt_or_ge iter buffer.length
    -- the first byte is still inside, so the rest must end outside
    · rw [copyRange, deref_of_lt iterInside, inductionHypothesis (by omega) (by omega)]
      rfl
    · rw [copyRange, deref_of_le iterOutside]
      rfl

/-- A loop whose cells run out before `last` reads as many bytes as it has cells. -/
theorem copyUntil_eq_copyRange {buffer : List UInt8} {iter last room : ℕ}
    (enough : iter + room ≤ last) :
    copyUntil buffer iter last room = copyRange buffer iter room := by
  induction room generalizing iter with
  | zero => rfl
  | succ room inductionHypothesis =>
    have notLast : iter ≠ last := by omega
    rw [copyUntil, if_neg notLast, copyRange, inductionHypothesis (by omega)]

/-- A long enough range fills the array with its first bytes. -/
theorem fillArray_of_le {size : ℕ} {buffer : List UInt8} {iter last : ℕ} {tooShort : String}
    (enough : iter + size ≤ last) (inside : iter + size ≤ buffer.length) :
    ∃ array, fillArray size buffer iter last tooShort = .ok array ∧
      array.toList = (buffer.drop iter).take size := by
  have full : ((buffer.drop iter).take size).length = size := by
    rw [List.length_take, List.length_drop]
    omega
  refine ⟨⟨((buffer.drop iter).take size).toArray, full⟩, ?_, by simp⟩
  rw [fillArray, copyUntil_eq_copyRange enough, copyRange_of_le inside, ok_bind, dif_pos full]
  rfl

theorem fillArray_of_lt {size : ℕ} {buffer : List UInt8} {iter last : ℕ} {tooShort : String}
    (nonempty : 0 < size) (enough : iter + size ≤ last) (outside : buffer.length < iter + size) :
    fillArray size buffer iter last tooShort = undefinedBehaviour := by
  rw [fillArray, copyUntil_eq_copyRange enough, copyRange_of_lt nonempty outside]
  rfl

/-! ## Reading in the middle of a buffer

A reader that stays inside `payload` does not see the bytes around it. -/

section Middle

variable (before : List UInt8) {payload : List UInt8} (after : List UInt8) {iter count : ℕ}

theorem deref_middle (inside : iter < payload.length) :
    deref (before ++ payload ++ after) (before.length + iter) = deref payload iter := by
  rw [deref_of_lt inside, deref_of_lt (by simp; omega)]
  simp [inside]

theorem copyRange_middle (inside : iter + count ≤ payload.length) :
    copyRange (before ++ payload ++ after) (before.length + iter) count =
      copyRange payload iter count := by
  rw [copyRange_of_le inside, copyRange_of_le (by simp; omega), List.append_assoc,
    ← List.drop_drop, List.drop_left, List.drop_append_of_le_length (by omega),
    List.take_append_of_le_length (by rw [List.length_drop]; omega)]

theorem fillArray_middle {last : ℕ} {tooShort : String} (enough : iter + count ≤ last)
    (inside : iter + count ≤ payload.length) :
    fillArray count (before ++ payload ++ after) (before.length + iter) (before.length + last)
      tooShort = fillArray count payload iter last tooShort := by
  rw [fillArray, fillArray, copyUntil_eq_copyRange enough, copyUntil_eq_copyRange (by omega),
    copyRange_middle before after inside]

/-- A field of the buffer is read as it stands. -/
theorem copyRange_field (field : List UInt8) :
    copyRange (before ++ field ++ after) before.length field.length = .ok field := by
  have inside : before.length + field.length ≤ (before ++ field ++ after).length := by
    simp only [List.length_append]
    omega
  rw [copyRange_of_le inside, List.append_assoc, List.drop_left, List.take_left]

theorem fillArray_field {size : ℕ} (array : Vector UInt8 size) (tooShort : String) :
    fillArray size (before ++ array.toList ++ after) before.length (before.length + size) tooShort =
      .ok array := by
  have copied := copyRange_field before after array.toList
  rw [Vector.length_toList] at copied
  rw [fillArray, copyUntil_eq_copyRange (Nat.le_refl _), copied, ok_bind,
    dif_pos Vector.length_toList]
  rfl

end Middle

end Klevret.Base
