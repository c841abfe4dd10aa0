import Klevret.Base.Separated
import Klevret.Verified.Cli.Tree

/-! # The stack and the handlers of the shipped commands

The values on the stack go with the elements of the command (`wellStacked_of_analyzeCommand`),
so the handlers of the shipped commands find the number of values and the
alternatives that they expect (`stack_agrees`). -/

namespace Klevret.Verified.Cli

open Klevret.Base Klevret.Cli
open RoseTree (Move Picks)

section Shipped

variable {Handler : Type} {parts : List (List Char)} {values stack : List CommandElementRealValue}
  {keys : List (CommandElementType × List Char)} {text : List Char}

/-! ## Parts, elements and values in step -/

/-- The parts that elements with these keys pick, one after the other, give the values. -/
def Typed (Handler : Type) (parts : List (List Char))
    (keys : List (CommandElementType × List Char)) (values : List CommandElementRealValue) : Prop :=
  ∃ matched : List (List Char × CommandElement Handler),
    Picks Accepts Rejects parts matched ∧ List.Forall₂ Built matched values ∧
      (matched.map Prod.snd).map CommandElement.key = keys

theorem Typed.nil (typed : Typed Handler parts [] values) : values = [] := by
  obtain ⟨matched, _, built, sameKeys⟩ := typed
  rw [List.map_eq_nil_iff, List.map_eq_nil_iff] at sameKeys
  rw [sameKeys] at built
  exact List.forall₂_nil_left_iff.mp built

/-- The first element picks its part, and the others pick theirs behind it. -/
theorem Typed.cons {key : CommandElementType × List Char} (typed : Typed Handler parts (key :: keys) values) :
    ∃ (element : CommandElement Handler) (ignored : List (List Char)) (part : List Char)
      (rest : List (List Char)) (value : CommandElementRealValue)
      (others : List CommandElementRealValue),
      element.key = key ∧ parts = ignored ++ part :: rest ∧
        (∀ other ∈ ignored, Rejects other element) ∧ Accepts part element ∧
        values = value :: others ∧ BuiltFrom part element.type value ∧
        Typed Handler rest keys others := by
  obtain ⟨matched, picks, built, sameKeys⟩ := typed
  cases matched with
  | nil => cases sameKeys
  | cons first matched =>
    obtain ⟨part, element⟩ := first
    obtain ⟨sameKey, restKeys⟩ := List.cons_eq_cons.mp sameKeys
    obtain ⟨ignored, rest, split, passed, accepted, restPicks⟩ := picks.cons_inv
    obtain ⟨value, others, isBuilt, restBuilt, isValues⟩ := List.forall₂_cons_left_iff.mp built
    exact ⟨element, ignored, part, rest, value, others, sameKey, split, passed, accepted, isValues,
      isBuilt, matched, restPicks, restBuilt, restKeys⟩

theorem Typed.word (typed : Typed Handler parts ((.fixedWord, text) :: keys) values) :
    ∃ ignored rest others, parts = ignored ++ text :: rest ∧ text ∉ ignored ∧
      values = .string text :: others ∧ Typed Handler rest keys others := by
  obtain ⟨element, ignored, part, rest, value, others, isKey, split, passed, accepted, isValues,
    built, restTyped⟩ := typed.cons
  obtain ⟨isType, isWord⟩ := Prod.mk.inj isKey
  have notIgnored : text ∉ ignored := by
    intro isIgnored
    have rejected := passed text isIgnored
    rw [Rejects, checkCommandElement, isType, isWord] at rejected
    simp at rejected
  have isPart : part = text := by
    rw [Accepts, checkCommandElement, isType, isWord] at accepted
    simpa [eq_comm] using accepted
  rw [isType] at built
  cases built
  subst isPart
  exact ⟨ignored, rest, others, split, notIgnored, isValues, restTyped⟩

/-- An address is the first part from here on that is one. -/
theorem Typed.address (typed : Typed Handler parts ((.ipV4Address, text) :: keys) values) :
    ∃ ignored part rest address others, parts = ignored ++ part :: rest ∧
      (∀ other ∈ ignored, parseIpV4Address other = false) ∧
        IPv4Address.ofString part = .ok address ∧ values = .ipV4Address address :: others ∧
          Typed Handler rest keys others := by
  obtain ⟨element, ignored, part, rest, value, others, isKey, split, passed, _, isValues, built,
    restTyped⟩ := typed.cons
  obtain ⟨isType, _⟩ := Prod.mk.inj isKey
  rw [isType] at built
  obtain ⟨address, isAddress, rfl⟩ := built
  refine ⟨ignored, part, rest, address, others, split, ?_, isAddress, isValues, restTyped⟩
  intro other isIgnored
  have rejected := passed other isIgnored
  rw [Rejects, checkCommandElement, isType] at rejected
  simpa using rejected

theorem Dispatched.typed {command : Command Handler}
    {moves : List (Move (List Char) (CommandElement Handler))} {root last : CommandTree Handler}
    {call : HandlerCall Handler} (dispatched : Dispatched command moves root call last) :
    Typed Handler (moves.map Move.item) (command.elements.map CommandElement.key)
      call.stack.reverse := by
  obtain ⟨values, isStack, built⟩ := dispatched.analyzed.stack
  have isValues : call.stack.reverse = values := by
    rw [List.append_nil] at isStack
    rw [← List.reverse_reverse values, ← isStack]
  rw [isValues]
  exact ⟨Move.matched moves, dispatched.analyzed.descends.picks, built,
    by rw [Move.map_snd_matched, dispatched.elements]⟩

/-! ## The shipped commands -/

/-- The keys of the elements of a command, and its handler. -/
def summary (command : Command Handler) :
    List (CommandElementType × List Char) × Option Handler :=
  (command.elements.map CommandElement.key, command.handler)

def wordKey (word : String) : CommandElementType × List Char := (.fixedWord, word.toList)

def addressKey : CommandElementType × List Char := (.ipV4Address, [])

/-- The keys and the handlers of the shipped commands. -/
def shippedSummaries : List (List (CommandElementType × List Char) × Option CommandHandler) :=
  [([wordKey "version"], some .cmdVersion),
    ([wordKey "ip", wordKey "show"], some .blank),
    ([wordKey "ip", wordKey "address", wordKey "show"], some .blank),
    ([wordKey "ip", wordKey "address", addressKey], some .cmdIpAddressIpV4),
    ([wordKey "dhcp", wordKey "pool", wordKey "create", addressKey, addressKey],
      some .cmdDhcpPoolCreate)]

theorem allCommands_eq :
    ∃ commands, allCommands = .ok commands ∧ commands.map summary = shippedSummaries := by
  have parsed : (do
      let commands ← allCommands
      return commands.map summary) = .ok shippedSummaries := by
    decide +kernel
  obtain ⟨commands, isOk, summaries⟩ := bind_eq_ok.mp parsed
  exact ⟨commands, isOk, Except.ok.inj summaries⟩

/-- The words stand in the parts in this order, each taken where it comes first behind the
    one before it, and `rest` is what is left behind the last of them. -/
inductive Behind : List (List Char) → List (List Char) → List (List Char) → Prop where
  | here (rest : List (List Char)) : Behind [] rest rest
  | word {words ignored after rest : List (List Char)} {word : List Char}
      (notIgnored : word ∉ ignored) (behind : Behind words after rest) :
      Behind (word :: words) (ignored ++ word :: after) rest

/-- A call of `cmd_ip_address_ipv4`: nothing in it throws before `send_cmd`, which gets the
    first address that is typed behind the matched word `address`. -/
structure IpAddressCall (parts : List (List Char)) (stack : CommandElementRealValues) : Prop where
  argsSize : checkArgsSize stack 3 "ip address <IPv4Address>" = .ok ()
  sends : ∃ between part after ip,
    Behind ["ip".toList, "address".toList] parts (between ++ part :: after) ∧
      (∀ other ∈ between, parseIpV4Address other = false) ∧
      IPv4Address.ofString part = .ok ip ∧ topIPv4Address stack = .ok ip ∧
      ∀ calls, cmdIpAddressIpV4 calls stack = sendCmd calls .core
        [("component", "dhcp".toList), ("cmd", "ip.address".toList), ("ip", ip.toString)]

/-- A call of `cmd_dhcp_pool_create`: nothing in it throws before `send_cmd`, which gets the
    first two addresses that are typed behind the matched word `create`, in this order. -/
structure PoolCreateCall (parts : List (List Char)) (stack : CommandElementRealValues) : Prop where
  argsSize : checkArgsSize stack 5 "dhcp pool create <IPv4Address> <IPv4Address>" = .ok ()
  sends : ∃ between first between' second after ipStart ipEnd,
    Behind ["dhcp".toList, "pool".toList, "create".toList] parts
        (between ++ first :: (between' ++ second :: after)) ∧
      (∀ other ∈ between ++ between', parseIpV4Address other = false) ∧
      IPv4Address.ofString first = .ok ipStart ∧ IPv4Address.ofString second = .ok ipEnd ∧
      topIPv4Address stack = .ok ipEnd ∧ topIPv4Address stack.tail = .ok ipStart ∧
      ∀ calls, cmdDhcpPoolCreate calls stack = sendCmd calls .core
        [("component", "dhcp".toList), ("cmd", "dhcp.pool.create".toList),
          ("ip_start", ipStart.toString), ("ip_end", ipEnd.toString)]

/-- The handler gets the stack that it expects. -/
def CallAgrees (parts : List (List Char)) (call : HandlerCall CommandHandler) : Prop :=
  match call.handler with
  | .cmdVersion | .blank => ∀ calls, ∃ str, call.handler.call calls call.stack = .ok (.written str)
  | .cmdIpAddressIpV4 => IpAddressCall parts call.stack
  | .cmdDhcpPoolCreate => PoolCreateCall parts call.stack

theorem ipAddressCall_of_typed
    (typed : Typed Handler parts [wordKey "ip", wordKey "address", addressKey] stack.reverse) :
    IpAddressCall parts stack := by
  obtain ⟨ignored, rest, others, split, isFirst, isStack, typed⟩ := typed.word
  obtain ⟨ignored', rest', others', split', isFirst', isOthers, typed⟩ := typed.word
  obtain ⟨between, part, after, ip, others'', split'', passed, isIp, isOthers', typed⟩ := typed.address
  have isReverse : stack = [.ipV4Address ip, .string "address".toList, .string "ip".toList] := by
    rw [isOthers, isOthers', typed.nil] at isStack
    exact List.reverse_injective isStack
  subst isReverse
  refine ⟨rfl, between, part, after, ip, ?_, passed, isIp, rfl, fun _ => rfl⟩
  rw [split, split', split'']
  exact .word isFirst (.word isFirst' (.here _))

theorem poolCreateCall_of_typed
    (typed : Typed Handler parts
      [wordKey "dhcp", wordKey "pool", wordKey "create", addressKey, addressKey] stack.reverse) :
    PoolCreateCall parts stack := by
  obtain ⟨ignored₁, rest₁, others₁, split₁, isFirst₁, isOthers₁, typed⟩ := typed.word
  obtain ⟨ignored₂, rest₂, others₂, split₂, isFirst₂, isOthers₂, typed⟩ := typed.word
  obtain ⟨ignored₃, rest₃, others₃, split₃, isFirst₃, isOthers₃, typed⟩ := typed.word
  obtain ⟨between, first, rest₄, ipStart, others₄, split₄, passed, isStart, isOthers₄, typed⟩ :=
    typed.address
  obtain ⟨between', second, after, ipEnd, others₅, split₅, passed', isEnd, isOthers₅, typed⟩ :=
    typed.address
  have isReverse : stack = [.ipV4Address ipEnd, .ipV4Address ipStart, .string "create".toList,
      .string "pool".toList, .string "dhcp".toList] := by
    rw [isOthers₂, isOthers₃, isOthers₄, isOthers₅, typed.nil] at isOthers₁
    exact List.reverse_injective isOthers₁
  subst isReverse
  refine ⟨rfl, between, first, between', second, after, ipStart, ipEnd, ?_,
    List.forall_mem_append.mpr ⟨passed, passed'⟩, isStart, isEnd, rfl, rfl, fun _ => rfl⟩
  rw [split₁, split₂, split₃, split₄, split₅]
  exact .word isFirst₁ (.word isFirst₂ (.word isFirst₃ (.here _)))

/-- The stack of every analysis goes with its node, and every handler of a shipped command
    that ENTER calls gets what it expects. -/
structure StackAgrees (split : Split) (line : List Char) : Prop where
  wellStacked : ∀ {Handler : Type} (commands : List (Command Handler)) (analysis : Analysis Handler),
    analyzeCommand split line (createCommandTree commands) = .ok analysis →
      WellStacked (split line) (createCommandTree commands) analysis
  shipped : ∃ commands, allCommands = .ok commands ∧
    ∀ call, pressEnter split line (createCommandTree commands) = .ok (some call) →
      CallAgrees (split line) call

theorem stack_agrees (split : Split) (line : List Char) : StackAgrees split line where
  wellStacked _ _ := wellStacked_of_analyzeCommand
  shipped := by
    obtain ⟨commands, isOk, summaries⟩ := allCommands_eq
    refine ⟨commands, isOk, ?_⟩
    intro call called
    obtain ⟨moves, last, items, command, isCommand, dispatched⟩ := dispatched_of_pressEnter called
    have typed := dispatched.typed
    have isSummary := List.mem_map_of_mem (f := summary) isCommand
    have isHandler := dispatched.handler
    rw [items] at typed
    rw [summaries] at isSummary
    simp only [shippedSummaries, List.mem_cons, List.not_mem_nil, or_false, summary,
      Prod.mk.injEq] at isSummary
    obtain ⟨keys, handler⟩ | ⟨keys, handler⟩ | ⟨keys, handler⟩ | ⟨keys, handler⟩ |
      ⟨keys, handler⟩ := isSummary
    all_goals
      rw [keys] at typed
      rw [handler, Option.some.injEq] at isHandler
      rw [CallAgrees, ← isHandler]
    · exact fun _ => ⟨_, rfl⟩
    · exact fun _ => ⟨_, rfl⟩
    · exact fun _ => ⟨_, rfl⟩
    · exact ipAddressCall_of_typed typed
    · exact poolCreateCall_of_typed typed

end Shipped

/-! ## An address in front of the command -/

def addressFirst : List Char := "1.2.3.4 dhcp pool create 5.6.7.8 9.9.9.9".toList

/-- The call that ENTER makes on the line. -/
def addressFirstCall : HandlerCall CommandHandler :=
  ⟨[2, 0, 0, 0, 0], .cmdDhcpPoolCreate,
    [.ipV4Address ⟨#v[9, 9, 9, 9]⟩, .ipV4Address ⟨#v[5, 6, 7, 8]⟩, .string "create".toList,
      .string "pool".toList, .string "dhcp".toList]⟩

theorem pressEnter_addressFirst : ∃ commands, allCommands = .ok commands ∧
    pressEnter (cutAtRuns ' ') addressFirst (createCommandTree commands) =
      .ok (some addressFirstCall) := by
  have evaluated : (do
      let commands ← allCommands
      pressEnter (cutAtRuns ' ') addressFirst (createCommandTree commands)) =
      .ok (some addressFirstCall) := by
    decide +kernel
  exact bind_eq_ok.mp evaluated

/-- The handler gets the two addresses behind `create`, and the first part is passed over. -/
theorem stack_agrees_sample : ∃ call : HandlerCall CommandHandler,
    call.handler = .cmdDhcpPoolCreate ∧ PoolCreateCall (cutAtRuns ' ' addressFirst) call.stack := by
  obtain ⟨commands, isOk, agrees⟩ := (stack_agrees (cutAtRuns ' ') addressFirst).shipped
  obtain ⟨commands', isOk', pressed⟩ := pressEnter_addressFirst
  cases Except.ok.inj (isOk.symm.trans isOk')
  exact ⟨addressFirstCall, rfl, agrees addressFirstCall pressed⟩

/-- The first address that is typed is not sent as `ip_start`, nor the second as `ip_end`. -/
theorem first_address_passed_over : ∃ commands, allCommands = .ok commands ∧
    (∃ call, pressEnter (cutAtRuns ' ') addressFirst (createCommandTree commands) =
        .ok (some call) ∧ call.handler = .cmdDhcpPoolCreate ∧
      cmdDhcpPoolCreate ⟨3, 1, 0, 101⟩ call.stack = .ok (.sent 40236
        [("component", "dhcp".toList), ("cmd", "dhcp.pool.create".toList),
          ("ip_start", "5.6.7.8".toList), ("ip_end", "9.9.9.9".toList)] 101)) ∧
    (cutAtRuns ' ' addressFirst).filter parseIpV4Address =
      ["1.2.3.4".toList, "5.6.7.8".toList, "9.9.9.9".toList] := by
  obtain ⟨commands, isOk, pressed⟩ := pressEnter_addressFirst
  exact ⟨commands, isOk, ⟨addressFirstCall, pressed, rfl, by decide +kernel⟩, by decide +kernel⟩

end Klevret.Verified.Cli
