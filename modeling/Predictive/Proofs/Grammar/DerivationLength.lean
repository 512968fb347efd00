import Mathlib.Tactic.Ring
import Predictive.Proofs.Grammar.WellFormed
import Predictive.Run.Basic

/-!
Contract: how many rules a leftmost derivation can apply for the terminals it passes.

Owns: the cost of erasing a form, the cost of a reading, and that the step bound of runs
covers both rules and terminals.
Does not own: runs.

The rules of a reading are charged to the terminals it passes and, if it stops on the way,
to the symbol it stops at: each such event is reached along a path of falling ranks, and
what a path leaves aside is erased or has events of its own. The path of the first event
starts below the left side of the rule, all other paths may start at any rank.
-/

namespace Predictive

namespace Grammar

/-- Rules that erase a form of one symbol, at most. -/
def erasure (grammar : Grammar) : Nat :=
  (grammar.widest + 1) ^ grammar.nonterminals.size

/-- Rules that one step of a path costs, with what it leaves to be erased. -/
def pathStep (grammar : Grammar) : Nat :=
  grammar.widest * grammar.erasure + 1

/-- Cost of some events when the path of the first starts below a rank. -/
def eventCost (grammar : Grammar) (below : Nat) : Nat → Nat
  | 0 => 0
  | events + 1 =>
      events * (grammar.nonterminals.size * grammar.pathStep) + below * grammar.pathStep

/-- The terminals passed, and one more if the reading stops on the way. -/
def eventCount (word : List Terminal) (rest : List Symbol) : Nat :=
  word.length + if rest = [] then 0 else 1

variable {grammar : Grammar} {rank : Nonterminal → Nat}

theorem right_length_le {rule : Rule} (member : rule ∈ grammar.rules) :
    rule.right.length ≤ grammar.widest := by
  have foldl_max : ∀ (lengths : List Nat) (start : Nat),
      start ≤ lengths.foldl max start ∧ ∀ length ∈ lengths, length ≤ lengths.foldl max start := by
    intro lengths
    induction lengths with
    | nil => simp
    | cons length lengths inductionHypothesis =>
        intro start
        obtain ⟨fromStart, fromRest⟩ := inductionHypothesis (max start length)
        rw [List.foldl_cons]
        refine ⟨by omega, ?_⟩
        intro other otherMember
        rcases List.mem_cons.mp otherMember with rfl | later
        · omega
        · exact fromRest other later
  exact (foldl_max _ 0).2 _ (List.mem_map.mpr ⟨rule, member, rfl⟩)

/-! ### Erasing -/

theorem IsRanking.length_le_of_erased (ranking : grammar.IsRanking rank) {below : Nat}
    {form : List Symbol} {numbers : List Nat} (reads : grammar.Reads form numbers [] [])
    (ranks : ∀ nonterminal, .nonterminal nonterminal ∈ form → rank nonterminal < below) :
    numbers.length ≤ form.length * (grammar.widest + 1) ^ below := by
  induction below using Nat.strongRecOn generalizing form numbers with
  | ind below lower =>
      induction form generalizing numbers with
      | nil => simp [(reads_nil_iff.mp reads).1]
      | cons symbol form inductionHypothesis =>
          have regrouped : grammar.Reads ([symbol] ++ form) numbers [] [] := reads
          obtain ⟨first, second, firstWord, secondWord, rfl, nothing, front, back⟩ :=
            regrouped.split_end
          obtain ⟨rfl, rfl⟩ := List.append_eq_nil_iff.mp nothing.symm
          have rest := inductionHypothesis back fun other member =>
            ranks other (List.mem_cons_of_mem _ member)
          have head : first.length ≤ (grammar.widest + 1) ^ below := by
            cases front with
            | @expand number rule _ _ numbers _ found onward =>
                rw [List.append_nil] at onward
                have member := mem_rules_of_rule? found
                have rankLt := ranks rule.left List.mem_cons_self
                have inner := lower (rank rule.left) rankLt onward (by
                  intro nonterminal occurs
                  obtain ⟨before, after, split⟩ := List.append_of_mem occurs
                  rw [split] at onward
                  exact ranking.falls rule member before nonterminal after split
                    (derives_append_nil_iff.mp ⟨numbers, onward.replay⟩).1)
                have narrow := Nat.mul_le_mul_right ((grammar.widest + 1) ^ rank rule.left)
                  (right_length_le member)
                have positive : 0 < (grammar.widest + 1) ^ rank rule.left :=
                  Nat.pow_pos (Nat.succ_pos _)
                calc (number :: numbers).length
                  _ ≤ grammar.widest * (grammar.widest + 1) ^ rank rule.left + 1 := by
                      rw [List.length_cons]
                      omega
                  _ ≤ (grammar.widest + 1) ^ (rank rule.left + 1) := by
                      rw [Nat.pow_succ', Nat.succ_mul]
                      omega
                  _ ≤ (grammar.widest + 1) ^ below :=
                      Nat.pow_le_pow_right (Nat.succ_pos _) rankLt
          rw [List.length_append, List.length_cons, Nat.succ_mul]
          omega

theorem IsRanking.length_le_erasure (ranking : grammar.IsRanking rank) {symbol : Symbol}
    {numbers : List Nat} (reads : grammar.Reads [symbol] numbers [] []) :
    numbers.length ≤ grammar.erasure := by
  have bound := ranking.length_le_of_erased reads fun nonterminal _ => ranking.bounded nonterminal
  rwa [List.length_singleton, Nat.one_mul] at bound

/-! ### Events -/

/-- Any events cost no more than that many paths from the highest rank. -/
theorem eventCost_size (events : Nat) :
    grammar.eventCost grammar.nonterminals.size events =
      events * (grammar.nonterminals.size * grammar.pathStep) := by
  cases events with
  | zero => simp [eventCost]
  | succ events => rw [eventCost, Nat.succ_mul]

/-- Events of a front part come before those of a back part; only the first path of all
starts low. -/
theorem eventCost_add (below front back : Nat) :
    grammar.eventCost below (front + 1)
        + back * (grammar.nonterminals.size * grammar.pathStep) =
      grammar.eventCost below (front + back + 1) := by
  rw [eventCost, eventCost, Nat.add_mul front back]
  omega

/-- Whether the cost of every right side is known for readings of so many rules. -/
def RightsCost (grammar : Grammar) (rank : Nonterminal → Nat) (total : Nat) : Prop :=
  ∀ rule ∈ grammar.rules, ∀ numbers word rest, numbers.length ≤ total →
    grammar.Reads rule.right numbers word rest →
      numbers.length ≤ rule.right.length * grammar.erasure
        + grammar.eventCost (rank rule.left) (eventCount word rest)

theorem IsRanking.symbol_length_le (ranking : grammar.IsRanking rank) {symbol : Symbol}
    {numbers : List Nat} {word : List Terminal} {rest : List Symbol} {below total : Nat}
    (reads : grammar.Reads [symbol] numbers word rest) (bound : numbers.length ≤ total + 1)
    (ranked : ∀ nonterminal, symbol = .nonterminal nonterminal → rank nonterminal < below)
    (rights : grammar.RightsCost rank total) :
    (eventCount word rest = 0 → numbers.length ≤ grammar.erasure) ∧
      (eventCount word rest ≠ 0 →
        numbers.length ≤ grammar.eventCost below (eventCount word rest)) := by
  constructor
  · intro none
    unfold eventCount at none
    have noWord : word = [] := List.length_eq_zero_iff.mp (by omega)
    have noRest : rest = [] := by
      by_contra stopped
      rw [if_neg stopped] at none
      omega
    subst noWord noRest
    exact ranking.length_le_erasure reads
  · intro some_event
    cases reads with
    | stop => exact Nat.zero_le _
    | pass terminal onward =>
        obtain ⟨rfl, _, _⟩ := reads_nil_iff.mp onward
        exact Nat.zero_le _
    | @expand number rule _ _ numbers _ found onward =>
        rw [List.append_nil] at onward
        have member := mem_rules_of_rule? found
        have rankLt := ranked rule.left rfl
        have inner := rights rule member numbers word rest (Nat.le_of_succ_le_succ bound) onward
        have narrow := Nat.mul_le_mul_right grammar.erasure (right_length_le member)
        obtain ⟨events, count⟩ := Nat.exists_eq_succ_of_ne_zero some_event
        have oneStep : (rank rule.left + 1) * grammar.pathStep ≤ below * grammar.pathStep :=
          Nat.mul_le_mul_right _ rankLt
        rw [count, eventCost] at inner ⊢
        rw [Nat.succ_mul] at oneStep
        simp only [pathStep, List.length_cons] at inner oneStep ⊢
        omega

theorem eventCount_read (word : List Terminal) : eventCount word [] = word.length := by
  simp [eventCount]

theorem eventCount_append (front back : List Terminal) (rest : List Symbol) :
    eventCount (front ++ back) rest = front.length + eventCount back rest := by
  unfold eventCount
  rw [List.length_append, Nat.add_assoc]

theorem eventCost_stop_le (below : Nat) (word : List Terminal) (remaining form : List Symbol) :
    grammar.eventCost below (eventCount word remaining) ≤
      grammar.eventCost below (eventCount word (remaining ++ form)) := by
  have counts : eventCount word remaining = eventCount word (remaining ++ form) ∨
      eventCount word remaining + 1 = eventCount word (remaining ++ form) := by
    unfold eventCount
    cases remaining <;> cases form <;> simp
  rcases counts with same | more
  · rw [same]
  · rw [← more]
    cases eventCount word remaining with
    | zero => exact Nat.zero_le _
    | succ events =>
        rw [← eventCost_add below events 1]
        exact Nat.le_add_right _ _

/-- Behind an erased symbol the corners of a form are corners of the whole. -/
theorem ranked_behind_erased {symbol : Symbol} {form : List Symbol} {numbers : List Nat}
    {below : Nat} (erased : grammar.Reads [symbol] numbers [] [])
    (ranked : ∀ before nonterminal after,
      symbol :: form = before ++ .nonterminal nonterminal :: after →
      grammar.Derives before [] → rank nonterminal < below)
    (before : List Symbol) (nonterminal : Nonterminal) (after : List Symbol)
    (split : form = before ++ .nonterminal nonterminal :: after)
    (erasedBefore : grammar.Derives before []) : rank nonterminal < below := by
  refine ranked (symbol :: before) nonterminal after (by rw [split]; rfl) ?_
  exact derives_append_nil_iff.mpr ⟨⟨numbers, erased.replay⟩, erasedBefore⟩

/-- A front part that passes a terminal pays for the low start; what is behind it may start
anywhere. -/
theorem charge_append {below symbols first second : Nat} {front back : List Terminal}
    {rest : List Symbol} (passed : front ≠ [])
    (head : first ≤ grammar.eventCost below front.length)
    (tail : second ≤ symbols * grammar.erasure
      + grammar.eventCost grammar.nonterminals.size (eventCount back rest)) :
    first + second ≤ symbols * grammar.erasure + grammar.erasure
      + grammar.eventCost below (eventCount (front ++ back) rest) := by
  cases front with
  | nil => exact absurd rfl passed
  | cons terminal front =>
      rw [eventCost_size] at tail
      have sum : grammar.eventCost below (front.length + 1)
          + eventCount back rest * (grammar.nonterminals.size * grammar.pathStep) =
            grammar.eventCost below (front.length + eventCount back rest + 1) :=
        eventCost_add below front.length (eventCount back rest)
      have regroup : (terminal :: front).length + eventCount back rest =
          front.length + eventCount back rest + 1 := by
        rw [List.length_cons]
        omega
      rw [List.length_cons] at head
      rw [eventCount_append, regroup]
      omega

/-- A reading applies no more rules than erasing every symbol of the form and the events of
the reading cost. -/
theorem IsRanking.form_length_le (ranking : grammar.IsRanking rank) (total : Nat)
    {form rest : List Symbol} {numbers : List Nat} {word : List Terminal} {below : Nat}
    (reads : grammar.Reads form numbers word rest) (bound : numbers.length ≤ total)
    (ranked : ∀ before nonterminal after, form = before ++ .nonterminal nonterminal :: after →
      grammar.Derives before [] → rank nonterminal < below) :
    numbers.length ≤ form.length * grammar.erasure
      + grammar.eventCost below (eventCount word rest) := by
  -- Expanding a symbol leaves fewer rules, leaving a symbol behind a shorter form.
  induction total generalizing form rest numbers word below with
  | zero => omega
  | succ total fewer =>
      have rights : grammar.RightsCost rank total := by
        intro rule member numbers word rest lengthLe onward
        exact fewer onward lengthLe (ranking.falls rule member)
      induction form generalizing numbers word below with
      | nil => simp [(reads_nil_iff.mp reads).1]
      | cons symbol form shorter =>
          have symbolRanked : ∀ nonterminal, symbol = .nonterminal nonterminal →
              rank nonterminal < below := by
            rintro nonterminal rfl
            exact ranked [] nonterminal form rfl (Derives.refl grammar [])
          have regrouped : grammar.Reads ([symbol] ++ form) numbers word rest := reads
          rw [List.length_cons, Nat.succ_mul]
          rcases regrouped.split with ⟨remaining, inside, rfl⟩ |
            ⟨first, second, firstWord, secondWord, rfl, rfl, front, back⟩
          · obtain ⟨erased, charged⟩ :=
              ranking.symbol_length_le inside bound symbolRanked rights
            have grows : grammar.eventCost below (eventCount word remaining) ≤
                grammar.eventCost below (eventCount word (remaining ++ form)) :=
              eventCost_stop_le below word remaining form
            by_cases none : eventCount word remaining = 0
            · have head := erased none
              omega
            · have head := charged none
              omega
          · rw [List.length_append] at bound ⊢
            obtain ⟨erased, charged⟩ :=
              ranking.symbol_length_le front (by omega) symbolRanked rights
            rw [eventCount_read] at erased charged
            by_cases passed : firstWord = []
            · subst passed
              have tail := shorter back (by omega) (ranked_behind_erased front ranked)
              have head := erased rfl
              rw [List.nil_append]
              omega
            · have tail := shorter back (by omega)
                fun _ nonterminal _ _ _ => ranking.bounded nonterminal
              have head := charged (by rwa [ne_eq, List.length_eq_zero_iff])
              exact charge_append passed head tail

/-- A reading that passes no more than `inputs` terminals, whatever it starts with. -/
theorem IsRanking.length_le (ranking : grammar.IsRanking rank) {form rest : List Symbol}
    {numbers : List Nat} {word : List Terminal}
    (reads : grammar.Reads form numbers word rest) {inputs : Nat} (fits : word.length ≤ inputs) :
    numbers.length ≤ form.length * grammar.erasure
      + (inputs + 1) * (grammar.nonterminals.size * grammar.pathStep) := by
  have length := ranking.form_length_le numbers.length reads (Nat.le_refl _)
    fun _ nonterminal _ _ _ => ranking.bounded nonterminal
  rw [eventCost_size] at length
  have events : eventCount word rest ≤ inputs + 1 := by
    unfold eventCount
    split <;> omega
  have cost := Nat.mul_le_mul_right (grammar.nonterminals.size * grammar.pathStep) events
  omega

/-! ### The step bound -/

/-- A reading of a single nonterminal that passes no more than `inputs` terminals applies so
few rules that the step bound covers the rules and the terminals. -/
theorem WellFormed.length_lt_stepBound (wellFormed : grammar.WellFormed)
    {nonterminal : Nonterminal} {numbers : List Nat} {word : List Terminal} {rest : List Symbol}
    (reads : grammar.Reads [.nonterminal nonterminal] numbers word rest) {inputs : Nat}
    (fits : word.length ≤ inputs) :
    numbers.length + word.length + 1 < grammar.stepBound inputs := by
  obtain ⟨rank, ranking⟩ := wellFormed.ranked
  have length := ranking.length_le reads fits
  rw [List.length_singleton, Nat.one_mul] at length
  generalize power : (grammar.widest + 2) ^ (grammar.nonterminals.size + 1) = steps
  have base : grammar.erasure ≤ (grammar.widest + 2) ^ grammar.nonterminals.size :=
    Nat.pow_le_pow_left (Nat.le_succ _) _
  have positive : 0 < (grammar.widest + 2) ^ grammar.nonterminals.size :=
    Nat.pow_pos (Nat.succ_pos _)
  rw [Nat.pow_succ', Nat.add_mul] at power
  have narrow := Nat.mul_le_mul_left grammar.widest base
  have erasureLe : grammar.erasure ≤ steps := by omega
  have stepLe : grammar.pathStep ≤ steps := by
    unfold pathStep
    omega
  have sizeLe := Nat.mul_le_mul_left (inputs + 1)
    (Nat.mul_le_mul_left grammar.nonterminals.size stepLe)
  have twoLe : 2 ≤ steps := by omega
  have inputsLe := Nat.mul_le_mul_left inputs twoLe
  have unfolded : grammar.stepBound inputs =
      (inputs + 1) * (grammar.nonterminals.size * steps) + grammar.nonterminals.size * steps
        + 2 * (inputs * steps) + 4 * steps := by
    unfold stepBound
    rw [← power]
    show (inputs + 2) * (grammar.nonterminals.size + 2)
      * (grammar.widest + 2) ^ (grammar.nonterminals.size + 1) = _
    ring
  omega

end Grammar

end Predictive
