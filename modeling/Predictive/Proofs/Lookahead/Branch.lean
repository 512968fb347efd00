import Predictive.Lookahead.Branch
import Predictive.Proofs.Grammar.DerivationLength
import Predictive.Proofs.Lookahead.First

/-!
Contract: the search for FIRST ends, and its guard against left recursion is silent.

Owns: what a branch can still yield, the derivation a branch has followed, and that the
search finds exactly FIRST where nonterminals can be ranked.
Does not own: FIRST itself.

A branch is where a leftmost derivation of the form has come to, cut open at the nonterminals
it is inside of (`Followed`). Two things are read off that. A nonterminal opened with nothing
consumed since ranks above the one that comes next, so the guard finds none. And the rules
applied so far belong to a reading within the length, so there are only so many of them.
-/

namespace Predictive

namespace First

variable {grammar : Grammar}

def Task.symbol? : Task → Option Symbol
  | .derive symbol => some symbol
  | .leave => none

/-- The symbols that tasks have still to derive. -/
def pending (tasks : List Task) : List Symbol := tasks.filterMap Task.symbol?

@[simp]
theorem pending_nil : pending [] = [] := rfl

@[simp]
theorem pending_leave (tasks : List Task) : pending (.leave :: tasks) = pending tasks := rfl

@[simp]
theorem pending_derive (symbol : Symbol) (tasks : List Task) :
    pending (.derive symbol :: tasks) = symbol :: pending tasks := rfl

@[simp]
theorem pending_append (form : List Symbol) (tasks : List Task) :
    pending (form.map .derive ++ tasks) = form ++ pending tasks := by
  induction form with
  | nil => rfl
  | cons symbol form inductionHypothesis =>
      rw [List.map_cons, List.cons_append, pending_derive, inductionHypothesis, List.cons_append]

@[simp]
theorem pending_map (form : List Symbol) : pending (form.map .derive) = form := by
  simpa using pending_append form []

/-! ### The moves of a branch -/

section Moves

variable {front : BoundedString} {behind : List Task} {opened : List (Nonterminal × Nat)}

theorem advance_of_full (full : front.room = 0) (tasks : List Task) :
    (Branch.mk front tasks opened).advance grammar = .ended front := by
  simp [Branch.advance, BoundedString.isFull_iff_room, full]

theorem advance_nil : (Branch.mk front [] opened).advance grammar = .ended front := by
  simp [Branch.advance]

theorem advance_leave (roomy : 0 < front.room) :
    (Branch.mk front (.leave :: behind) opened).advance grammar =
      .onward ⟨front, behind, opened.tail⟩ := by
  simp [Branch.advance, BoundedString.isFull_iff_room, Nat.ne_of_gt roomy]

theorem advance_terminal (roomy : 0 < front.room) {terminal : Terminal} {longer : BoundedString}
    (pushed : front.push? terminal = some longer) :
    (Branch.mk front (.derive (.terminal terminal) :: behind) opened).advance grammar =
      .onward ⟨longer, behind, opened⟩ := by
  simp [Branch.advance, BoundedString.isFull_iff_room, Nat.ne_of_gt roomy, pushed]

theorem advance_nonterminal (roomy : 0 < front.room) {nonterminal : Nonterminal}
    (closed : (nonterminal, front.length) ∉ opened) :
    (Branch.mk front (.derive (.nonterminal nonterminal) :: behind) opened).advance grammar =
      .forked ((grammar.rulesFor nonterminal).map (Branch.enter front behind opened)) := by
  simp [Branch.advance, BoundedString.isFull_iff_room, Nat.ne_of_gt roomy, closed]

end Moves

/-! ### What a branch yields -/

/-- A string that some way of going on with the branch ends with. -/
def Branch.Yields (grammar : Grammar) (branch : Branch) (string : BoundedString) : Prop :=
  string.limit = branch.front.limit ∧
    ∃ back, grammar.IsBeginning branch.front.room (pending branch.tasks) back ∧
      string.terminals = branch.front.terminals ++ back

theorem Branch.yields_start (limit : Nat) (form : List Symbol) (string : BoundedString) :
    (Branch.start limit form).Yields grammar string ↔
      string.limit = limit ∧ grammar.IsBeginning limit form string.terminals := by
  simp [Branch.Yields, Branch.start, BoundedString.empty, BoundedString.room]

/-- A branch without more to do, or without room to do it, yields its front alone. -/
theorem Branch.yields_ended {branch : Branch}
    (ended : branch.front.room = 0 ∨ pending branch.tasks = []) (string : BoundedString) :
    branch.Yields grammar string ↔ string = branch.front := by
  have nothing (back : List Terminal) :
      grammar.IsBeginning branch.front.room (pending branch.tasks) back ↔ back = [] := by
    rcases ended with full | done
    · rw [full, Grammar.isBeginning_zero]
    · rw [done, Grammar.isBeginning_nil]
  simp only [Branch.Yields, nothing, exists_eq_left, List.append_nil]
  constructor
  · rintro ⟨sameLimit, sameTerminals⟩
    exact BoundedString.ext sameTerminals sameLimit
  · rintro rfl
    exact ⟨rfl, rfl⟩

theorem Branch.yields_terminal {front longer : BoundedString} {terminal : Terminal}
    (roomy : 0 < front.room) (spelled : longer.terminals = front.terminals ++ [terminal])
    (sameLimit : longer.limit = front.limit) (behind : List Task)
    (opened : List (Nonterminal × Nat)) (string : BoundedString) :
    (Branch.mk front (.derive (.terminal terminal) :: behind) opened).Yields grammar string ↔
      (Branch.mk longer behind opened).Yields grammar string := by
  have lessRoom : longer.room = front.room - 1 := by
    unfold BoundedString.room
    rw [spelled, sameLimit, List.length_append, List.length_singleton, Nat.sub_add_eq]
  simp only [Branch.Yields, pending_derive, Grammar.isBeginning_terminal_cons roomy, lessRoom,
    spelled, sameLimit, List.append_assoc, List.singleton_append]
  constructor
  · rintro ⟨ofLimit, _, ⟨back, beginning, rfl⟩, whole⟩
    exact ⟨ofLimit, back, beginning, whole⟩
  · rintro ⟨ofLimit, back, beginning, whole⟩
    exact ⟨ofLimit, terminal :: back, ⟨back, beginning, rfl⟩, whole⟩

theorem Branch.yields_nonterminal {front : BoundedString} (roomy : 0 < front.room)
    (nonterminal : Nonterminal) (behind : List Task) (opened : List (Nonterminal × Nat))
    (string : BoundedString) :
    (Branch.mk front (.derive (.nonterminal nonterminal) :: behind) opened).Yields grammar string ↔
      ∃ rule ∈ grammar.rulesFor nonterminal,
        (Branch.enter front behind opened rule).Yields grammar string := by
  simp only [Branch.Yields, Branch.enter, pending_derive, pending_append, pending_leave,
    Grammar.isBeginning_nonterminal roomy]
  constructor
  · rintro ⟨ofLimit, back, ⟨rule, member, beginning⟩, whole⟩
    exact ⟨rule, member, ofLimit, back, beginning, whole⟩
  · rintro ⟨rule, member, ofLimit, back, beginning, whole⟩
    exact ⟨ofLimit, back, ⟨rule, member, beginning⟩, whole⟩

/-! ### What the search adds -/

/-- Whether the search, where some branches come next, adds exactly a set to what is found and
goes on behind them. -/
def Explores (grammar : Grammar) (branches : List Branch) (set : LookaheadSet) : Prop :=
  ∃ moves, ∀ spare others found, search grammar (moves + spare) (branches ++ others) found =
    search grammar spare others (found.union set)

/-- Whether the search finds what a branch yields, and nothing else, without an error. -/
def Branch.Explored (grammar : Grammar) (branch : Branch) : Prop :=
  ∃ set, Explores grammar [branch] set ∧ ∀ string, string ∈ set ↔ branch.Yields grammar string

theorem explores_nil : Explores grammar [] LookaheadSet.empty := by
  refine ⟨0, fun spare others found => ?_⟩
  rw [LookaheadSet.union_empty, Nat.zero_add, List.nil_append]

theorem Explores.cons {branch : Branch} {branches : List Branch} {first second : LookaheadSet}
    (head : Explores grammar [branch] first) (tail : Explores grammar branches second) :
    Explores grammar (branch :: branches) (first.union second) := by
  obtain ⟨headMoves, headSearch⟩ := head
  obtain ⟨tailMoves, tailSearch⟩ := tail
  refine ⟨headMoves + tailMoves, fun spare others found => ?_⟩
  calc search grammar (headMoves + tailMoves + spare) (branch :: branches ++ others) found
    _ = search grammar (tailMoves + spare) (branches ++ others) (found.union first) := by
        rw [Nat.add_assoc]
        exact headSearch (tailMoves + spare) (branches ++ others) found
    _ = search grammar spare others ((found.union first).union second) :=
        tailSearch spare others (found.union first)
    _ = search grammar spare others (found.union (first.union second)) := by
        rw [LookaheadSet.union_assoc]

/-- Branches of which each is explored are explored in a row. -/
theorem exists_explores {branches : List Branch}
    (each : ∀ branch ∈ branches, branch.Explored grammar) :
    ∃ set, Explores grammar branches set ∧
      ∀ string, string ∈ set ↔ ∃ branch ∈ branches, branch.Yields grammar string := by
  induction branches with
  | nil =>
      refine ⟨LookaheadSet.empty, explores_nil, fun string => ?_⟩
      simp only [List.not_mem_nil, false_and, exists_false, iff_false]
      exact LookaheadSet.not_mem_empty string
  | cons branch branches inductionHypothesis =>
      obtain ⟨first, head, memFirst⟩ := each branch List.mem_cons_self
      obtain ⟨second, tail, memSecond⟩ := inductionHypothesis fun other member =>
        each other (List.mem_cons_of_mem branch member)
      refine ⟨first.union second, head.cons tail, fun string => ?_⟩
      rw [LookaheadSet.mem_union, memFirst, memSecond]
      simp only [List.mem_cons, exists_eq_or_imp]

theorem Branch.explored_of_ended {branch : Branch}
    (ended : branch.advance grammar = .ended branch.front)
    (yields : ∀ string, branch.Yields grammar string ↔ string = branch.front) :
    branch.Explored grammar := by
  refine ⟨LookaheadSet.ofList [branch.front], ⟨1, fun spare others found => ?_⟩, fun string => ?_⟩
  · rw [Nat.add_comm, List.singleton_append, search, ended]
  · rw [LookaheadSet.mem_ofList, List.mem_singleton, yields]

theorem Branch.explored_of_onward {branch next : Branch}
    (onward : branch.advance grammar = .onward next) (explored : next.Explored grammar)
    (yields : ∀ string, branch.Yields grammar string ↔ next.Yields grammar string) :
    branch.Explored grammar := by
  obtain ⟨set, ⟨moves, searched⟩, members⟩ := explored
  refine ⟨set, ⟨moves + 1, fun spare others found => ?_⟩, fun string => ?_⟩
  · rw [Nat.add_right_comm, List.singleton_append, search, onward]
    exact searched spare others found
  · rw [members, yields]

theorem Branch.explored_of_forked {branch : Branch} {branches : List Branch}
    (forked : branch.advance grammar = .forked branches)
    (explored : ∀ next ∈ branches, next.Explored grammar)
    (yields : ∀ string, branch.Yields grammar string ↔
      ∃ next ∈ branches, next.Yields grammar string) :
    branch.Explored grammar := by
  obtain ⟨set, ⟨moves, searched⟩, members⟩ := exists_explores explored
  refine ⟨set, ⟨moves + 1, fun spare others found => ?_⟩, fun string => ?_⟩
  · rw [Nat.add_right_comm, List.singleton_append, search, forked]
    exact searched spare others found
  · rw [members, yields]

/-! ### The derivation behind a branch -/

/-- How a form leads to a branch. Outside of any nonterminal the front is what some of the form
was read to. Inside of one, the same holds of the rule it was replaced by, and what comes before
and behind the nonterminal is that of the branch that opened it. -/
inductive Followed (grammar : Grammar) (form : List Symbol) :
    List Nat → List Terminal → List Task → List (Nonterminal × Nat) → Prop where
  | outside {read unread : List Symbol} {numbers : List Nat} {front : List Terminal}
      (split : form = read ++ unread) (reads : grammar.Reads read numbers front []) :
      Followed grammar form numbers front (unread.map .derive) []
  | inside {rule : Rule} {number : Nat} {read unread : List Symbol} {numbers inner : List Nat}
      {front word : List Terminal} {behind : List Task} {opened : List (Nonterminal × Nat)}
      (outer : Followed grammar form numbers front (.derive (.nonterminal rule.left) :: behind)
        opened)
      (found : grammar.rule? number = some rule) (split : rule.right = read ++ unread)
      (reads : grammar.Reads read inner word []) :
      Followed grammar form (numbers ++ number :: inner) (front ++ word)
        (unread.map .derive ++ .leave :: behind) ((rule.left, front.length) :: opened)

section Followed

variable {form : List Symbol} {numbers : List Nat} {front : List Terminal} {tasks : List Task}
  {opened : List (Nonterminal × Nat)}

theorem followed_start (grammar : Grammar) (limit : Nat) (form : List Symbol) :
    Followed grammar form [] (Branch.start limit form).front.terminals
      (Branch.start limit form).tasks (Branch.start limit form).opened :=
  .outside (List.nil_append form).symm (.stop [])

/-- The rules applied so far read the form up to what is still to derive. -/
theorem Followed.reads (followed : Followed grammar form numbers front tasks opened) :
    grammar.Reads form numbers front (pending tasks) := by
  induction followed with
  | @outside read unread numbers front split reads =>
      rw [split, pending_map]
      exact reads.behind unread
  | @inside rule number read unread numbers inner front word behind opened outer found split reads
      inductionHypothesis =>
      rw [pending_append, pending_leave]
      apply inductionHypothesis.trans
      apply Grammar.Reads.expand found
      rw [split, List.append_assoc]
      exact reads.behind (unread ++ pending behind)

/-- A symbol that has been read is behind the branch. -/
theorem Followed.read {symbol : Symbol} {behind : List Task} {more : List Nat}
    {word : List Terminal}
    (followed : Followed grammar form numbers front (.derive symbol :: behind) opened)
    (reads : grammar.Reads [symbol] more word []) :
    Followed grammar form (numbers ++ more) (front ++ word) behind opened := by
  generalize whole : Task.derive symbol :: behind = tasks at followed
  cases followed with
  | @outside read unread numbers front split readsFront =>
      cases unread with
      | nil => exact absurd whole (by simp)
      | cons head unread =>
          obtain ⟨sameHead, sameTail⟩ := List.cons.inj whole
          obtain rfl := Task.derive.inj sameHead
          have onward : form = (read ++ [symbol]) ++ unread := by
            rw [split, List.append_assoc, List.singleton_append]
          rw [sameTail]
          exact .outside onward (readsFront.append reads)
  | @inside rule number read unread numbers inner front innerWord rest opened outer found split
      readsInner =>
      cases unread with
      | nil => exact absurd whole (by simp)
      | cons head unread =>
          obtain ⟨sameHead, sameTail⟩ := List.cons.inj whole
          obtain rfl := Task.derive.inj sameHead
          have onward : rule.right = (read ++ [symbol]) ++ unread := by
            rw [split, List.append_assoc, List.singleton_append]
          rw [sameTail, List.append_assoc numbers, List.cons_append, List.append_assoc front]
          exact .inside outer found onward (readsInner.append reads)

/-- Leaving a nonterminal puts all of it behind the branch. -/
theorem Followed.leave {behind : List Task}
    (followed : Followed grammar form numbers front (.leave :: behind) opened) :
    Followed grammar form numbers front behind opened.tail := by
  generalize whole : Task.leave :: behind = tasks at followed
  cases followed with
  | @outside read unread numbers front split reads =>
      cases unread with
      | nil => exact absurd whole (by simp)
      | cons head unread => exact absurd whole (by simp)
  | @inside rule number read unread numbers inner front word rest opened outer found split reads =>
      cases unread with
      | nil =>
          obtain ⟨_, rfl⟩ := List.cons.inj whole
          rw [List.append_nil] at split
          apply outer.read
          apply Grammar.Reads.expand found
          rwa [List.append_nil, split]
      | cons head unread => exact absurd whole (by simp)

/-- What is open was opened no later than now. -/
theorem Followed.entry_le (followed : Followed grammar form numbers front tasks opened)
    {nonterminal : Nonterminal} {entry : Nat} (member : (nonterminal, entry) ∈ opened) :
    entry ≤ front.length := by
  induction followed with
  | outside => exact absurd member List.not_mem_nil
  | @inside rule number read unread numbers inner front word behind opened outer found split reads
      inductionHypothesis =>
      rw [List.length_append]
      cases member with
      | head => exact Nat.le_add_right _ _
      | tail _ earlier => exact Nat.le_trans (inductionHypothesis earlier) (Nat.le_add_right _ _)

/-- The next nonterminal ranks below each one opened with nothing consumed since. So it is
none of these. -/
theorem Followed.rank_lt {rank : Nonterminal → Nat} (ranking : grammar.IsRanking rank)
    (followed : Followed grammar form numbers front tasks opened) {next : Nonterminal}
    {behind : List Task} (first : tasks = .derive (.nonterminal next) :: behind)
    {nonterminal : Nonterminal} (member : (nonterminal, front.length) ∈ opened) :
    rank next < rank nonterminal := by
  induction followed generalizing next behind with
  | outside => exact absurd member List.not_mem_nil
  | @inside rule number read unread numbers inner front word rest opened outer found split reads
      inductionHypothesis =>
      cases unread with
      | nil => exact absurd first (by simp)
      | cons head unread =>
          obtain ⟨sameHead, _⟩ := List.cons.inj first
          obtain rfl := Task.derive.inj sameHead
          -- An entry at this length says that the rule's beginning was erased.
          have nothing : word = [] := by
            have entry : (front ++ word).length ≤ front.length := by
              rcases List.mem_cons.mp member with same | earlier
              · exact Nat.le_of_eq (Prod.mk.inj same).2
              · exact outer.entry_le earlier
            rw [List.length_append] at entry
            exact List.length_eq_zero_iff.mp (by omega)
          subst nothing
          have below : rank next < rank rule.left :=
            ranking.falls rule (Grammar.mem_rules_of_rule? found) read next unread split
              ⟨inner, reads.replay⟩
          rw [List.append_nil] at member
          cases member with
          | head => exact below
          | tail _ earlier => exact Nat.lt_trans below (inductionHypothesis rfl earlier)

/-- The guard against left recursion is silent. -/
theorem Followed.not_mem_opened {rank : Nonterminal → Nat} (ranking : grammar.IsRanking rank)
    {nonterminal : Nonterminal} {behind : List Task}
    (followed : Followed grammar form numbers front (.derive (.nonterminal nonterminal) :: behind)
      opened) : (nonterminal, front.length) ∉ opened := by
  intro member
  exact Nat.lt_irrefl _ (followed.rank_lt ranking rfl member)

/-- The branch that goes on with a rule has read nothing of its right side yet. -/
theorem Followed.enter {behind : List Task} {number : Nat} {rule : Rule}
    (followed : Followed grammar form numbers front (.derive (.nonterminal rule.left) :: behind)
      opened) (found : grammar.rule? number = some rule) :
    Followed grammar form (numbers ++ [number]) front
      (rule.right.map .derive ++ .leave :: behind) ((rule.left, front.length) :: opened) := by
  have entered := Followed.inside followed found (List.nil_append rule.right).symm (.stop [])
  rwa [List.append_nil] at entered

end Followed

/-! ### The whole search -/

/-- A branch is explored if all branches are that have applied more rules. Until it forks, every
move leaves it fewer tasks. -/
theorem Followed.explored_of_deeper {rank : Nonterminal → Nat} (ranking : grammar.IsRanking rank)
    {form : List Symbol} {limit : Nat} {numbers : List Nat}
    (deeper : ∀ (next : Branch) (longer : List Nat), next.front.limit = limit →
      Followed grammar form longer next.front.terminals next.tasks next.opened →
        numbers.length < longer.length → next.Explored grammar)
    {front : BoundedString} {tasks : List Task} {opened : List (Nonterminal × Nat)}
    (ofLimit : front.limit = limit)
    (followed : Followed grammar form numbers front.terminals tasks opened) :
    (Branch.mk front tasks opened).Explored grammar := by
  induction tasks generalizing front opened with
  | nil => exact Branch.explored_of_ended advance_nil (Branch.yields_ended (.inr rfl))
  | cons task behind inductionHypothesis =>
      rcases Nat.eq_zero_or_pos front.room with full | roomy
      · exact Branch.explored_of_ended (advance_of_full full _) (Branch.yields_ended (.inl full))
      · match task with
        | .leave =>
            apply Branch.explored_of_onward (advance_leave roomy)
            · exact inductionHypothesis ofLimit followed.leave
            · exact fun _ => Iff.rfl
        | .derive (.terminal terminal) =>
            obtain ⟨longer, pushed, spelled, sameLimit⟩ :=
              BoundedString.exists_push? roomy terminal
            have read := followed.read (.pass terminal (.stop []))
            rw [List.append_nil, ← spelled] at read
            apply Branch.explored_of_onward (advance_terminal roomy pushed)
            · exact inductionHypothesis (sameLimit.trans ofLimit) read
            · exact Branch.yields_terminal roomy spelled sameLimit behind opened
        | .derive (.nonterminal nonterminal) =>
            have closed := followed.not_mem_opened ranking
            apply Branch.explored_of_forked (advance_nonterminal roomy closed)
            · intro next member
              obtain ⟨rule, ofNonterminal, rfl⟩ := List.mem_map.mp member
              obtain ⟨inRules, rfl⟩ := Grammar.mem_rulesFor.mp ofNonterminal
              obtain ⟨number, found⟩ := Grammar.exists_rule?_of_mem inRules
              apply deeper _ (numbers ++ [number]) ofLimit (followed.enter found)
              rw [List.length_append, List.length_singleton]
              exact Nat.lt_succ_self _
            · intro string
              simp only [Branch.yields_nonterminal roomy, List.mem_map, exists_exists_and_eq_and]

/-- Every branch of a form is explored, since what it has followed is a reading within the
limit. -/
theorem Followed.explored {rank : Nonterminal → Nat} (ranking : grammar.IsRanking rank)
    {form : List Symbol} {numbers : List Nat} {branch : Branch}
    (followed : Followed grammar form numbers branch.front.terminals branch.tasks branch.opened) :
    branch.Explored grammar := by
  generalize bound : form.length * grammar.erasure
    + (branch.front.limit + 1) * (grammar.nonterminals.size * grammar.pathStep) = total
  induction rules : total - numbers.length using Nat.strongRecOn generalizing numbers branch with
  | ind spare inductionHypothesis =>
      subst rules
      apply followed.explored_of_deeper ranking _ rfl
      intro next longer sameLimit onward more
      have within := ranking.length_le onward.reads next.front.length_le
      rw [sameLimit, bound] at within
      exact inductionHypothesis (total - longer.length) (by omega) onward (by rw [sameLimit, bound])
        rfl

end First

namespace Grammar

variable {grammar : Grammar}

/-- With enough moves the search comes to its end, without an error, and has found FIRST. -/
theorem WellFormed.exists_firstByBranches (wellFormed : grammar.WellFormed) (form : List Symbol)
    (length : Nat) : ∃ enough, ∀ moves, enough ≤ moves →
      grammar.firstByBranches moves form length = some (.ok (grammar.beginnings length form)) := by
  obtain ⟨rank, ranking⟩ := wellFormed.ranked
  obtain ⟨set, ⟨moves, searched⟩, members⟩ :=
    (First.followed_start grammar length form).explored ranking
  have first : set = grammar.beginnings length form := by
    apply LookaheadSet.ext_mem
    intro string
    rw [members, First.Branch.yields_start, wellFormed.isFirst_beginnings length form string]
  refine ⟨moves + 1, fun budget within => ?_⟩
  obtain ⟨spare, rfl⟩ := Nat.exists_eq_add_of_le within
  have found := searched (spare + 1) [] LookaheadSet.empty
  rw [LookaheadSet.empty_union, first] at found
  rw [Nat.add_assoc, Nat.add_comm 1 spare]
  exact found

/-- A rule that begins with its own left side sets the guard off. -/
example : firstByBranches ⟨⟨["a"], by decide⟩, ⟨["S"], by decide⟩,
    [⟨1, 0, [.nonterminal 0, .terminal 0]⟩]⟩ 3 [.nonterminal 0] 1 = some (.error 0) := by rfl

end Grammar

end Predictive
