import Mathlib.Tactic.Choose
import Predictive.Lookahead.First
import Predictive.Proofs.Lookahead.Beginnings

/-!
Contract: FIRST is total on well-formed grammars and holds exactly the beginnings.

Owns: what one symbol and a whole form add to the beginnings found so far, the depth
that expansions need, and FIRST as a total function (`Grammar.beginnings`) with its law of
concatenation.
Does not own: the beginnings as such.

The step over a symbol asks for the expansion of a nonterminal only at rooms that words
before it leave (`Expands`). A ranking turns this into less work, so the depth given to
FIRST is never used up.
-/

namespace Predictive

theorem mapM_eq_ok {Input Output Failure : Type} {f : Input → Except Failure Output}
    {g : Input → Output} {inputs : List Input} (each : ∀ input ∈ inputs, f input = .ok (g input)) :
    inputs.mapM f = .ok (inputs.map g) := by
  induction inputs with
  | nil => rfl
  | cons input inputs inductionHypothesis =>
      rw [List.mapM_cons, each input (by simp),
        inductionHypothesis fun other member => each other (by simp [member])]
      rfl

namespace BoundedString

theorem eq_cut_iff {string : BoundedString} {limit : Nat} {terminals : List Terminal}
    (fits : terminals.length ≤ limit) :
    string = cut limit terminals ↔ string.limit = limit ∧ string.terminals = terminals := by
  constructor
  · rintro rfl
    exact ⟨rfl, List.take_of_length_le fits⟩
  · rintro ⟨sameLimit, sameTerminals⟩
    apply ext
    · rw [sameTerminals]
      exact (List.take_of_length_le fits).symm
    · exact sameLimit

theorem isFull_iff {string : BoundedString} {limit : Nat} (ofLimit : string.limit = limit) :
    string.isFull = true ↔ string.terminals.length = limit := by
  subst ofLimit
  unfold isFull
  rw [decide_eq_true_eq]
  exact ⟨fun full => Nat.le_antisymm string.length_le full, fun full => Nat.le_of_eq full.symm⟩

theorem isFull_iff_room {string : BoundedString} : string.isFull = true ↔ string.room = 0 := by
  unfold isFull room
  rw [decide_eq_true_eq]
  omega

theorem exists_push? {string : BoundedString} (roomy : 0 < string.room) (terminal : Terminal) :
    ∃ longer, string.push? terminal = some longer ∧
      longer.terminals = string.terminals ++ [terminal] ∧ longer.limit = string.limit := by
  have fits : string.terminals.length < string.limit := Nat.lt_of_sub_pos roomy
  exact ⟨_, dif_pos fits, rfl, rfl⟩

end BoundedString

namespace Grammar

/-- Whether a set holds exactly the beginnings of a form, each limited to their length. -/
def IsFirst (grammar : Grammar) (length : Nat) (form : List Symbol) (set : LookaheadSet) : Prop :=
  ∀ string, string ∈ set ↔
    string.limit = length ∧ grammar.IsBeginning length form string.terminals

/-- Whether a nonterminal's expansion is right wherever a form needs it: in the room that a
word of what stands before it leaves. -/
def Expands (grammar : Grammar)
    (expand : Nonterminal → Nat → Except Nonterminal LookaheadSet) (limit : Nat)
    (form : List Symbol) : Prop :=
  ∀ before nonterminal after, form = before ++ .nonterminal nonterminal :: after →
    ∀ front, grammar.IsBeginning limit before front → front.length < limit →
      ∃ set, expand nonterminal (limit - front.length) = .ok set ∧
        grammar.IsFirst (limit - front.length) [.nonterminal nonterminal] set

/-- Strings longer than those found: the ones found that are not full, each continued by the
beginnings of a symbol that the room admits. -/
def IsLonger (grammar : Grammar) (limit : Nat) (found : LookaheadSet) (symbol : Symbol)
    (longer : List BoundedString) : Prop :=
  ∀ string, string ∈ longer ↔ ∃ front ∈ found, front.terminals.length < limit ∧
    ∃ back, grammar.IsBeginning (limit - front.terminals.length) [symbol] back ∧
      string = BoundedString.cut limit (front.terminals ++ back)

variable {grammar : Grammar}

theorem IsFirst.eq {length : Nat} {form : List Symbol} {left right : LookaheadSet}
    (leftFirst : grammar.IsFirst length form left) (rightFirst : grammar.IsFirst length form right) :
    left = right := by
  apply LookaheadSet.ext_mem
  intro string
  rw [leftFirst string, rightFirst string]

theorem isFirst_endOfInput (length : Nat) :
    grammar.IsFirst length [] (LookaheadSet.endOfInput length) := by
  intro string
  rw [isBeginning_nil]
  constructor
  · intro member
    rw [List.mem_singleton.mp member]
    exact ⟨rfl, rfl⟩
  · rintro ⟨sameLimit, nothing⟩
    exact List.mem_singleton.mpr (BoundedString.ext nothing sameLimit)

end Grammar

namespace First

variable {grammar : Grammar}

/-! ### One symbol -/

/-- The strings of a length, each followed by each of the words. -/
def groupOf (limit : Nat) (strings : List BoundedString) (words : List (List Terminal))
    (length : Nat) : List BoundedString :=
  (strings.filter (·.length == length)).flatMap fun string =>
    words.map fun word => BoundedString.cut limit (string.terminals ++ word)

theorem followedBy_eq {expand : Nat → Except Nonterminal LookaheadSet} {limit : Nat}
    {strings : List BoundedString} {sets : Nat → LookaheadSet}
    (each : ∀ string ∈ strings, expand (limit - string.length) = .ok (sets string.length)) :
    ∃ result, followedBy expand limit strings = .ok result ∧
      ∀ string, string ∈ result ↔ ∃ front ∈ strings, ∃ back ∈ sets front.length,
        string = BoundedString.cut limit (front.terminals ++ back.terminals) := by
  have groups : ((strings.map BoundedString.length).eraseDups.mapM fun length => do
      let words := (← expand (limit - length)).words
      return groupOf limit strings words length) =
        .ok ((strings.map BoundedString.length).eraseDups.map fun length =>
          groupOf limit strings (sets length).words length) := by
    apply mapM_eq_ok
    intro length member
    rw [List.mem_eraseDups] at member
    obtain ⟨string, stringMember, rfl⟩ := List.mem_map.mp member
    simp only [each string stringMember]
    rfl
  refine ⟨_, congrArg (·.bind fun groups => .ok groups.flatten) groups, ?_⟩
  intro string
  simp only [List.mem_flatten, List.mem_map, List.mem_eraseDups, groupOf, LookaheadSet.words]
  constructor
  · rintro ⟨_, ⟨length, _, rfl⟩, member⟩
    obtain ⟨front, inGroup, later⟩ := List.mem_flatMap.mp member
    obtain ⟨word, wordMember, rfl⟩ := List.mem_map.mp later
    obtain ⟨back, backMember, rfl⟩ := List.mem_map.mp wordMember
    obtain ⟨frontMember, sameLength⟩ := List.mem_filter.mp inGroup
    rw [beq_iff_eq] at sameLength
    subst sameLength
    exact ⟨front, frontMember, back, backMember, rfl⟩
  · rintro ⟨front, frontMember, back, backMember, rfl⟩
    refine ⟨_, ⟨front.length, ⟨front, frontMember, rfl⟩, rfl⟩, ?_⟩
    refine List.mem_flatMap.mpr ⟨front, List.mem_filter.mpr ⟨frontMember, by simp⟩, ?_⟩
    exact List.mem_map.mpr ⟨back.terminals, List.mem_map.mpr ⟨back, backMember, rfl⟩, rfl⟩

theorem mem_notFull {limit : Nat} {before : List Symbol} {found : LookaheadSet}
    (first : grammar.IsFirst limit before found) {string : BoundedString} :
    string ∈ found.strings.filter (!·.isFull) ↔
      string ∈ found ∧ string.terminals.length < limit := by
  rw [List.mem_filter, LookaheadSet.mem_strings, Bool.not_eq_true', ← Bool.not_eq_true]
  constructor
  · rintro ⟨member, notFull⟩
    obtain ⟨ofLimit, beginning⟩ := (first string).mp member
    rw [BoundedString.isFull_iff ofLimit] at notFull
    exact ⟨member, Nat.lt_of_le_of_ne beginning.length_le notFull⟩
  · rintro ⟨member, short⟩
    refine ⟨member, ?_⟩
    rw [BoundedString.isFull_iff ((first string).mp member).1]
    omega

theorem isLonger_terminal {limit : Nat} {before : List Symbol} {found : LookaheadSet}
    (first : grammar.IsFirst limit before found) (terminal : Terminal) :
    grammar.IsLonger limit found (.terminal terminal)
      ((found.strings.filter (!·.isFull)).map fun string =>
        BoundedString.cut limit (string.terminals ++ [terminal])) := by
  intro string
  rw [List.mem_map]
  constructor
  · rintro ⟨front, member, rfl⟩
    obtain ⟨frontMember, short⟩ := (mem_notFull first).mp member
    exact ⟨front, frontMember, short, [terminal],
      (Grammar.isBeginning_terminal (by omega)).mpr rfl, rfl⟩
  · rintro ⟨front, frontMember, short, back, beginning, rfl⟩
    rw [(Grammar.isBeginning_terminal (by omega)).mp beginning]
    exact ⟨front, (mem_notFull first).mpr ⟨frontMember, short⟩, rfl⟩

theorem exists_isLonger_nonterminal
    {expand : Nonterminal → Nat → Except Nonterminal LookaheadSet} {limit : Nat}
    {before after : List Symbol} {nonterminal : Nonterminal} {found : LookaheadSet}
    (expands : grammar.Expands expand limit (before ++ .nonterminal nonterminal :: after))
    (first : grammar.IsFirst limit before found) :
    ∃ longer, followedBy (expand nonterminal) limit (found.strings.filter (!·.isFull)) =
        .ok longer ∧ grammar.IsLonger limit found (.nonterminal nonterminal) longer := by
  have each : ∀ length, (∃ string ∈ found.strings.filter (!·.isFull),
      string.terminals.length = length) → ∃ set,
        expand nonterminal (limit - length) = .ok set ∧
          grammar.IsFirst (limit - length) [.nonterminal nonterminal] set := by
    rintro length ⟨string, member, rfl⟩
    obtain ⟨inFound, short⟩ := (mem_notFull first).mp member
    exact expands before nonterminal after rfl string.terminals
      ((first string).mp inFound).2 short
  have : Nonempty LookaheadSet := ⟨LookaheadSet.empty⟩
  choose! sets expanded setFirst using each
  obtain ⟨longer, computed, mem_longer⟩ := followedBy_eq fun string member =>
    expanded string.length ⟨string, member, rfl⟩
  refine ⟨longer, computed, ?_⟩
  intro string
  rw [mem_longer]
  constructor
  · rintro ⟨front, member, back, backMember, rfl⟩
    obtain ⟨frontMember, short⟩ := (mem_notFull first).mp member
    have backFirst := setFirst front.length ⟨front, member, rfl⟩
    exact ⟨front, frontMember, short, back.terminals, ((backFirst back).mp backMember).2, rfl⟩
  · rintro ⟨front, frontMember, short, back, beginning, rfl⟩
    have member := (mem_notFull first).mpr ⟨frontMember, short⟩
    have backFirst := setFirst front.length ⟨front, member, rfl⟩
    refine ⟨front, member, ⟨back, limit - front.length, beginning.length_le⟩, ?_, rfl⟩
    exact (backFirst _).mpr ⟨rfl, beginning⟩

/-- The full strings of a form and the longer ones are those of the form with one more
symbol. -/
theorem isFirst_of_isLonger {limit : Nat} {before : List Symbol} {symbol : Symbol}
    {found : LookaheadSet} {longer : List BoundedString}
    (isLonger : grammar.IsLonger limit found symbol longer)
    (first : grammar.IsFirst limit before found) :
    grammar.IsFirst limit (before ++ [symbol])
      ((found.filter BoundedString.isFull).union (LookaheadSet.ofList longer)) := by
  intro string
  rw [LookaheadSet.mem_union, LookaheadSet.mem_filter, LookaheadSet.mem_ofList, isLonger,
    Grammar.isBeginning_append]
  constructor
  · rintro (⟨member, full⟩ | ⟨front, frontMember, short, back, beginning, equal⟩)
    · obtain ⟨ofLimit, whole⟩ := (first string).mp member
      exact ⟨ofLimit, .inl ⟨(BoundedString.isFull_iff ofLimit).mp full, whole⟩⟩
    · have backLength := beginning.length_le
      have fits : (front.terminals ++ back).length ≤ limit := by
        rw [List.length_append]
        omega
      obtain ⟨ofLimit, spelled⟩ := (BoundedString.eq_cut_iff fits).mp equal
      exact ⟨ofLimit, .inr ⟨front.terminals, back, short, ((first front).mp frontMember).2,
        beginning, spelled⟩⟩
  · rintro ⟨ofLimit, ⟨full, beginning⟩ | ⟨front, back, short, frontBeginning, beginning,
      spelled⟩⟩
    · exact .inl ⟨(first string).mpr ⟨ofLimit, beginning⟩,
        (BoundedString.isFull_iff ofLimit).mpr full⟩
    · have backLength := beginning.length_le
      have fits : (front ++ back).length ≤ limit := by
        rw [List.length_append]
        omega
      exact .inr ⟨⟨front, limit, frontBeginning.length_le⟩,
        (first _).mpr ⟨rfl, frontBeginning⟩, short, back, beginning,
        (BoundedString.eq_cut_iff fits).mpr ⟨ofLimit, spelled⟩⟩

theorem extend_isFirst {expand : Nonterminal → Nat → Except Nonterminal LookaheadSet}
    {limit : Nat} {before after : List Symbol} {symbol : Symbol} {found : LookaheadSet}
    (expands : grammar.Expands expand limit (before ++ symbol :: after))
    (first : grammar.IsFirst limit before found) :
    ∃ set, extend expand limit found symbol = .ok set ∧
      grammar.IsFirst limit (before ++ [symbol]) set := by
  cases symbol with
  | terminal terminal => exact ⟨_, rfl, isFirst_of_isLonger (isLonger_terminal first terminal) first⟩
  | nonterminal nonterminal =>
      obtain ⟨longer, computed, isLonger⟩ := exists_isLonger_nonterminal expands first
      refine ⟨_, ?_, isFirst_of_isLonger isLonger first⟩
      unfold extend
      simp only [computed]
      rfl

/-! ### Forms -/

theorem extendAll_isFirst {expand : Nonterminal → Nat → Except Nonterminal LookaheadSet}
    {limit : Nat} {before rest : List Symbol} {found : LookaheadSet}
    (expands : grammar.Expands expand limit (before ++ rest))
    (first : grammar.IsFirst limit before found) :
    ∃ set, extendAll expand limit found rest = .ok set ∧
      grammar.IsFirst limit (before ++ rest) set := by
  induction rest generalizing before found with
  | nil =>
      rw [List.append_nil]
      exact ⟨found, rfl, first⟩
  | cons symbol rest inductionHypothesis =>
      rw [extendAll]
      split
      · rename_i allFull
        rw [List.all_eq_true] at allFull
        have full : ∀ string ∈ found, string.terminals.length = limit := by
          intro string member
          exact (BoundedString.isFull_iff ((first string).mp member).1).mp (allFull string member)
        refine ⟨found, rfl, ?_⟩
        intro string
        rw [first string, Grammar.isBeginning_append]
        constructor
        · rintro ⟨ofLimit, beginning⟩
          exact ⟨ofLimit, .inl ⟨full string ((first string).mpr ⟨ofLimit, beginning⟩), beginning⟩⟩
        · rintro ⟨ofLimit, ⟨_, beginning⟩ | ⟨front, back, short, frontBeginning, _, _⟩⟩
          · exact ⟨ofLimit, beginning⟩
          -- A word that is not full would be among the strings found.
          · have fills := full ⟨front, limit, frontBeginning.length_le⟩
              ((first _).mpr ⟨rfl, frontBeginning⟩)
            simp only at fills
            omega
      · obtain ⟨further, extended, furtherFirst⟩ := extend_isFirst expands first
        have regrouped : before ++ symbol :: rest = (before ++ [symbol]) ++ rest := by simp
        rw [regrouped] at expands ⊢
        obtain ⟨set, computed, setFirst⟩ := inductionHypothesis expands furtherFirst
        refine ⟨set, ?_, setFirst⟩
        rw [extended]
        exact computed

theorem ofSymbols_isFirst {expand : Nonterminal → Nat → Except Nonterminal LookaheadSet}
    {limit : Nat} {form : List Symbol} (expands : grammar.Expands expand limit form) :
    ∃ set, ofSymbols expand limit form = .ok set ∧ grammar.IsFirst limit form set :=
  extendAll_isFirst expands (Grammar.isFirst_endOfInput limit)

theorem mem_foldr_union (sets : List LookaheadSet) (string : BoundedString) :
    string ∈ sets.foldr LookaheadSet.union LookaheadSet.empty ↔ ∃ set ∈ sets, string ∈ set := by
  induction sets with
  | nil =>
      simp only [List.foldr_nil, List.not_mem_nil, false_and, exists_false, iff_false]
      exact LookaheadSet.not_mem_empty string
  | cons set sets inductionHypothesis =>
      rw [List.foldr_cons, LookaheadSet.mem_union, inductionHypothesis]
      simp

/-! ### Depth -/

theorem expand_isFirst {rank : Nonterminal → Nat} (ranking : grammar.IsRanking rank)
    (depth : Nat) (nonterminal : Nonterminal) (room : Nat) (positive : 0 < room)
    (enough : grammar.work rank nonterminal room < depth + grammar.nonterminals.size) :
    ∃ set, expand grammar depth nonterminal room = .ok set ∧
      grammar.IsFirst room [.nonterminal nonterminal] set := by
  induction depth generalizing nonterminal room with
  | zero =>
      have oneRound : 1 * grammar.nonterminals.size ≤ room * grammar.nonterminals.size :=
        Nat.mul_le_mul_right _ positive
      unfold Grammar.work at enough
      omega
  | succ depth inductionHypothesis =>
      have each : ∀ rule, rule ∈ grammar.rulesFor nonterminal → ∃ set,
          ofSymbols (expand grammar depth) room rule.right = .ok set ∧
            grammar.IsFirst room rule.right set := by
        intro rule member
        obtain ⟨inRules, rfl⟩ := Grammar.mem_rulesFor.mp member
        apply ofSymbols_isFirst
        intro before inner after split front beginning short
        obtain ⟨numbers, reads⟩ := beginning.reads_of_lt short
        have less := ranking.work_lt inRules split reads short
        exact inductionHypothesis inner (room - front.length) (by omega) (by omega)
      have : Nonempty LookaheadSet := ⟨LookaheadSet.empty⟩
      choose! sets computed setFirst using each
      refine ⟨((grammar.rulesFor nonterminal).map sets).foldr LookaheadSet.union
        LookaheadSet.empty, ?_, ?_⟩
      · rw [expand, mapM_eq_ok computed]
        rfl
      · intro string
        rw [mem_foldr_union, Grammar.isBeginning_nonterminal positive]
        simp only [List.append_nil, List.mem_map]
        constructor
        · rintro ⟨_, ⟨rule, member, rfl⟩, inSet⟩
          obtain ⟨ofLimit, beginning⟩ := (setFirst rule member string).mp inSet
          exact ⟨ofLimit, rule, member, beginning⟩
        · rintro ⟨ofLimit, rule, member, beginning⟩
          exact ⟨sets rule, ⟨rule, member, rfl⟩,
            (setFirst rule member string).mpr ⟨ofLimit, beginning⟩⟩

end First

namespace Grammar

variable {grammar : Grammar}

/-- FIRST answers for every form over a grammar with a ranking, numbers that the grammar
never gave out included, and answers exactly the beginnings. -/
theorem exists_first {rank : Nonterminal → Nat} (ranking : grammar.IsRanking rank)
    (form : List Symbol) (length : Nat) :
    ∃ set, grammar.first form length = .ok set ∧ grammar.IsFirst length form set := by
  apply First.ofSymbols_isFirst
  intro before nonterminal after _ front _ short
  apply First.expand_isFirst ranking
  · omega
  · have bounded := ranking.bounded nonterminal
    have fewer : (length - front.length) * grammar.nonterminals.size
        ≤ length * grammar.nonterminals.size := Nat.mul_le_mul_right _ (Nat.sub_le _ _)
    unfold work First.depth
    omega

/-- FIRST as a total function; it is empty only where FIRST fails. -/
def beginnings (grammar : Grammar) (length : Nat) (form : List Symbol) : LookaheadSet :=
  match grammar.first form length with
  | .ok set => set
  | .error _ => LookaheadSet.empty

section WellFormed

variable (wellFormed : grammar.WellFormed)

include wellFormed

theorem WellFormed.first_eq (form : List Symbol) (length : Nat) :
    grammar.first form length = .ok (grammar.beginnings length form) := by
  obtain ⟨rank, ranking⟩ := wellFormed.ranked
  obtain ⟨set, computed, _⟩ := exists_first ranking form length
  simp only [beginnings, computed]

theorem WellFormed.isFirst_beginnings (length : Nat) (form : List Symbol) :
    grammar.IsFirst length form (grammar.beginnings length form) := by
  obtain ⟨rank, ranking⟩ := wellFormed.ranked
  obtain ⟨set, computed, first⟩ := exists_first ranking form length
  simp only [beginnings, computed]
  exact first

theorem WellFormed.beginnings_nil (length : Nat) :
    grammar.beginnings length [] = LookaheadSet.endOfInput length :=
  (wellFormed.isFirst_beginnings length []).eq (isFirst_endOfInput length)

theorem WellFormed.concat_beginnings (length : Nat) (left : List Symbol) {right : List Symbol}
    (known : grammar.KnowsAll right) :
    LookaheadSet.concat length (grammar.beginnings length left) (grammar.beginnings length right) =
      grammar.beginnings length (left ++ right) := by
  apply LookaheadSet.ext_mem
  intro string
  rw [LookaheadSet.mem_concat, wellFormed.isFirst_beginnings length (left ++ right) string,
    wellFormed.isBeginning_append_iff_take known]
  constructor
  · rintro ⟨first, firstMember, second, secondMember, rfl⟩
    exact ⟨rfl, first.terminals, second.terminals,
      ((wellFormed.isFirst_beginnings length left first).mp firstMember).2,
      ((wellFormed.isFirst_beginnings length right second).mp secondMember).2, rfl⟩
  · rintro ⟨ofLimit, front, back, frontBeginning, backBeginning, spelled⟩
    refine ⟨⟨front, length, frontBeginning.length_le⟩,
      (wellFormed.isFirst_beginnings length left _).mpr ⟨rfl, frontBeginning⟩,
      ⟨back, length, backBeginning.length_le⟩,
      (wellFormed.isFirst_beginnings length right _).mpr ⟨rfl, backBeginning⟩, ?_⟩
    exact BoundedString.ext spelled ofLimit

theorem WellFormed.hasWord_beginnings (length : Nat) (form : List Symbol)
    (word : List Terminal) :
    (∃ string ∈ grammar.beginnings length form, string.terminals = word) ↔
      grammar.IsBeginning length form word := by
  constructor
  · rintro ⟨string, member, rfl⟩
    exact ((wellFormed.isFirst_beginnings length form string).mp member).2
  · intro beginning
    exact ⟨⟨word, length, beginning.length_le⟩,
      (wellFormed.isFirst_beginnings length form _).mpr ⟨rfl, beginning⟩, rfl⟩

end WellFormed

end Grammar

end Predictive
