import Klevret.Base.Cpp
import Klevret.Dhcp.WrapperForParsing

/-! # Character cursor of the CLI (`WrapperForParsing`)

The class of the DHCP component with a few more operations.  The loops that read
on while a character is of some kind are one loop, `readWhile`. -/

namespace Klevret.Cli

open Klevret.Base

abbrev WrapperForParsing := Dhcp.WrapperForParsing

/-- `std::isspace`. -/
def isSpace (ch : Char) : Bool := ch = ' ' || (9 ≤ ch.toNat && ch.toNat ≤ 13)

end Klevret.Cli

namespace Klevret.Dhcp.WrapperForParsing

open Klevret.Base

/-- `while (accepts(wrap.ch)) wrap.get_next()`, with the characters that it passes. -/
def readWhile (accepts : Char → Bool) (notMarker : accepts EOT = false) (wrap : WrapperForParsing) :
    List Char × WrapperForParsing :=
  if accepts wrap.ch then
    let rest := readWhile accepts notMarker wrap.getNext
    (wrap.ch :: rest.1, rest.2)
  else
    ([], wrap)
termination_by wrap.remaining
decreasing_by
  rename_i accepted
  apply remaining_getNext
  intro marker
  rw [marker, notMarker] at accepted
  cases accepted

def skipWhitespaces (wrap : WrapperForParsing) : WrapperForParsing :=
  (wrap.readWhile Cli.isSpace rfl).2

def isEnd (wrap : WrapperForParsing) : Bool := wrap.ch == EOT

/-- `check`: the character must be `c`, and the cursor moves on. -/
def check (wrap : WrapperForParsing) (c : Char) : Cpp WrapperForParsing :=
  if wrap.ch = c then return wrap.getNext
  else
    throwRuntimeError ("Ожидалось <" ++ String.singleton c ++ ">, но <" ++
      String.singleton wrap.ch ++ ">")

/-- The loop passes the longest beginning of the text that is of the kind. -/
theorem readWhile_ofString {accepts : Char → Bool} (notMarker : accepts EOT = false)
    (text : List Char) :
    readWhile accepts notMarker (ofString text) =
      (text.takeWhile accepts, ofString (text.dropWhile accepts)) := by
  induction text with
  | nil =>
    rw [readWhile, if_neg (by rw [ch_ofString_nil, notMarker]; exact Bool.false_ne_true)]
    rfl
  | cons ch text inductionHypothesis =>
    by_cases accepted : accepts ch
    · rw [readWhile, if_pos (by rwa [ch_ofString_cons]), getNext_ofString_cons,
        inductionHypothesis, List.takeWhile_cons_of_pos accepted,
        List.dropWhile_cons_of_pos accepted]
      rfl
    · rw [readWhile, if_neg (by rwa [ch_ofString_cons]), List.takeWhile_cons_of_neg accepted,
        List.dropWhile_cons_of_neg accepted]

/-- The text does not begin with a character of the kind. -/
def Stops (accepts : Char → Bool) : (text : List Char) → Prop
  | [] => True
  | ch :: _ => accepts ch = false

theorem stops_dropWhile (accepts : Char → Bool) (text : List Char) :
    Stops accepts (text.dropWhile accepts) := by
  induction text with
  | nil => trivial
  | cons ch text inductionHypothesis =>
    by_cases accepted : accepts ch
    · rwa [List.dropWhile_cons_of_pos accepted]
    · rw [List.dropWhile_cons_of_neg accepted]
      exact Bool.eq_false_iff.mpr accepted

/-- The loop passes a run of the kind, and stays in front of what stops it. -/
theorem readWhile_append {accepts : Char → Bool} (notMarker : accepts EOT = false)
    {run tail : List Char} (all : run.all accepts) (stops : Stops accepts tail) :
    readWhile accepts notMarker (ofString (run ++ tail)) = (run, ofString tail) := by
  have accepted : ∀ ch ∈ run, accepts ch := List.all_eq_true.mp all
  rw [readWhile_ofString, List.takeWhile_append_of_pos accepted,
    List.dropWhile_append_of_pos accepted]
  cases tail with
  | nil => simp
  | cons ch tail =>
    have refused : ¬ accepts ch := Bool.eq_false_iff.mp stops
    rw [List.takeWhile_cons_of_neg refused, List.dropWhile_cons_of_neg refused, List.append_nil]

section ReadWhile

variable {accepts : Char → Bool} {notMarker : accepts EOT = false} {wrap : WrapperForParsing}

theorem all_readWhile : (wrap.readWhile accepts notMarker).1.all accepts := by
  obtain ⟨text, rfl⟩ := wrap.exists_ofString
  rw [readWhile_ofString]
  exact List.all_takeWhile

theorem readWhile_ne_nil (accepted : accepts wrap.ch) : (wrap.readWhile accepts notMarker).1 ≠ [] := by
  rw [readWhile, if_pos accepted]
  exact List.cons_ne_nil _ _

theorem remaining_getNext_of_accepted (notMarker : accepts EOT = false) (accepted : accepts wrap.ch) :
    wrap.getNext.remaining < wrap.remaining := by
  apply remaining_getNext
  intro marker
  rw [marker, notMarker] at accepted
  cases accepted

theorem remaining_readWhile_le : (wrap.readWhile accepts notMarker).2.remaining ≤ wrap.remaining := by
  induction wrap using readWhile.induct accepts notMarker with
  | case1 wrap accepted inductionHypothesis =>
    rw [readWhile, if_pos accepted]
    exact Nat.le_trans inductionHypothesis
      (Nat.le_of_lt (remaining_getNext_of_accepted notMarker accepted))
  | case2 wrap refused =>
    have stays : (wrap.readWhile accepts notMarker).2 = wrap := by rw [readWhile, if_neg refused]
    exact Nat.le_of_eq (congrArg remaining stays)

theorem remaining_readWhile_lt (accepted : accepts wrap.ch) :
    (wrap.readWhile accepts notMarker).2.remaining < wrap.remaining := by
  rw [readWhile, if_pos accepted]
  exact Nat.lt_of_le_of_lt remaining_readWhile_le (remaining_getNext_of_accepted notMarker accepted)

theorem remaining_skipWhitespaces_le : wrap.skipWhitespaces.remaining ≤ wrap.remaining :=
  remaining_readWhile_le

end ReadWhile

end Klevret.Dhcp.WrapperForParsing
