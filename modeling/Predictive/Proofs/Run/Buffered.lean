import Predictive.Proofs.Run.Basic
import Predictive.Proofs.Run.Window
import Predictive.Proofs.Table.Buffered
import Predictive.Run.Buffered

/-!
Contract: the buffered table makes the moves of the lookahead table, with changes between.

Owns: the steps under full and under short buffers, the relation between the two machines'
configurations, and the path of the buffered machine along a path of the other one.
Does not own: what either run answers.

The buffer holds what the window shows, as far as it has been read; once the end of the
input is read, it is the whole window with end marks behind. Before each move of the lookahead
table the buffered one reads until its buffer is full. So it has read more of the input than
the other has consumed, by at most the lookahead length.
-/

namespace Predictive

/-! ### The first unknown terminal -/

/-- The place of the first terminal that has no number in a grammar with so many, the length of
the input if there is none. -/
def firstUnknown (terminals : Nat) (input : List Terminal) : Nat :=
  input.findIdx fun terminal => decide (terminals ≤ terminal)

theorem firstUnknown_le (terminals : Nat) (input : List Terminal) :
    firstUnknown terminals input ≤ input.length :=
  List.findIdx_le_length

theorem firstUnknown_append {terminals : Nat} {front : List Terminal}
    (known : ∀ terminal ∈ front, terminal < terminals) (back : List Terminal) :
    firstUnknown terminals (front ++ back) = front.length + firstUnknown terminals back := by
  induction front with
  | nil => simp
  | cons terminal front inductionHypothesis =>
      have headKnown : ¬terminals ≤ terminal := Nat.not_le_of_lt (known terminal (by simp))
      have onward := inductionHypothesis fun other member => known other (by simp [member])
      unfold firstUnknown at onward ⊢
      rw [List.cons_append, List.findIdx_cons, onward]
      simp only [headKnown, decide_false, cond_false, List.length_cons]
      omega

namespace BufferedTable

variable {table : BufferedTable} {word rest : List Terminal} {top : StackSymbol}
  {below : List StackSymbol} {position : Nat}

/-! ### Steps -/

/-- The step under a full buffer that holds a word. -/
def fullStep (table : LookaheadTable) (top : StackSymbol) (below : List StackSymbol)
    (word : List Terminal) (configuration : BufferedConfiguration) :
    Step BufferedConfiguration BufferedRow (List BufferSymbol) :=
  match table.select top word with
  | [] => .failed (.noAction (.stack top) configuration.buffer configuration.position)
  | [.accept] => .accepted
  | [.pop] => .moved .pop { configuration with
      stack := below
      buffer := configuration.buffer.tail
        ++ if word.length < table.length then [.endMark] else [] }
  | [.expand rule replacement] =>
      .moved (.expand rule) { configuration with stack := replacement ++ below }
  | _ => .failed (.ambiguous (.stack top) configuration.buffer)

/-- Under a full buffer a step does what the lookahead table selects. -/
theorem step_full {table : LookaheadTable} (fits : word.length ≤ table.length)
    {configuration : BufferedConfiguration} (pushdown : configuration.stack = top :: below)
    (full : configuration.buffer = pad table.length word) :
    BufferedTable.step ⟨table⟩ configuration = fullStep table top below word configuration := by
  have row : BufferedTable.row ⟨table⟩ top configuration = .stack top :=
    if_neg (by rw [full, length_pad fits]; exact Nat.lt_irrefl _)
  have selects : BufferedTable.select ⟨table⟩ (.stack top) (pad table.length word) =
      (table.select top word).map (carry table.length word) := select_stack fits top
  unfold step fullStep
  simp only [pushdown, row, selects, full]
  match table.select top word with
  | [] => rfl
  | [.accept] => rfl
  | [.pop] => rfl
  | [.expand rule replacement] => rfl
  | first :: second :: more => cases first <;> rfl

theorem step_inputEnd (short : word.length < table.length)
    (held : table.lookahead.axis.contains word = true) :
    table.step ⟨top :: below, word.map .terminal, [], position⟩ =
      .moved (.change (pad table.length word))
        ⟨top :: below, pad table.length word, [], position⟩ := by
  have row : table.row top ⟨top :: below, word.map .terminal, [], position⟩ = .inputEnd :=
    if_pos (by rwa [List.length_map])
  unfold step
  simp only [row, select_inputEnd short held, List.tail_nil, List.isEmpty_nil, if_true]

theorem step_input (short : word.length < table.length)
    (held : table.lookahead.axis.contains word = true) {terminal : Terminal}
    (known : terminal < table.terminals) :
    table.step ⟨top :: below, word.map .terminal, terminal :: rest, position⟩ =
      .moved (.change ((word ++ [terminal]).map .terminal))
        ⟨top :: below, (word ++ [terminal]).map .terminal, rest, position + 1⟩ := by
  have row : table.row top ⟨top :: below, word.map .terminal, terminal :: rest, position⟩ =
      .input terminal := if_pos (by rwa [List.length_map])
  unfold step
  simp only [row, select_input short held, if_pos known, List.tail_cons, List.isEmpty_cons,
    Bool.false_eq_true, if_false]

theorem step_unknown (short : word.length < table.length)
    (held : table.lookahead.axis.contains word = true) {terminal : Terminal}
    (unknown : ¬terminal < table.terminals) :
    table.step ⟨top :: below, word.map .terminal, terminal :: rest, position⟩ =
      .failed (.noAction (.input terminal) (word.map .terminal) position) := by
  have row : table.row top ⟨top :: below, word.map .terminal, terminal :: rest, position⟩ =
      .input terminal := if_pos (by rwa [List.length_map])
  unfold step
  simp only [row, select_input short held, if_neg unknown]

end BufferedTable

namespace LookaheadTable

/-- The buffered machine stands where the other one does, after so many changes: it is still
reading, or it has read the end of the input. -/
inductive Tracks (table : LookaheadTable) :
    WindowConfiguration → Nat → BufferedConfiguration → Prop where
  | reading {stack : List StackSymbol} {rest : List Terminal} {position : Nat} (read : Nat)
      (available : read ≤ rest.length) (held : table.axis.contains (rest.take read) = true) :
      Tracks table ⟨stack, rest, position⟩ (position + read)
        ⟨stack, (rest.take read).map .terminal, rest.drop read, position + read⟩
  | ended {stack : List StackSymbol} {rest : List Terminal} {position : Nat}
      (short : rest.length < table.length) (held : table.axis.contains rest = true) :
      Tracks table ⟨stack, rest, position⟩ (position + rest.length + 1)
        ⟨stack, pad table.length rest, [], position + rest.length⟩

variable {table : LookaheadTable} {top : StackSymbol} {below : List StackSymbol}
  {rest : List Terminal} {position : Nat}

theorem known_of_contains {word : List Terminal} (held : table.axis.contains word = true) :
    ∀ terminal ∈ word, terminal < table.terminals :=
  (Axis.contains_iff.mp held).2

/-- A machine that is still reading has read less than it may, or its buffer is full. -/
theorem length_take_le {read : Nat} (available : read ≤ rest.length)
    (held : table.axis.contains (rest.take read) = true) : read ≤ table.length := by
  have fits := (Axis.contains_iff.mp held).1
  rwa [List.length_take_of_le available] at fits

theorem contains_take_succ {read : Nat} (more : read < rest.length) (room : read < table.length)
    (held : table.axis.contains (rest.take read) = true)
    (known : rest[read] < table.terminals) :
    table.axis.contains (rest.take (read + 1)) = true := by
  rw [Axis.contains_iff] at held ⊢
  rw [List.length_take_of_le more, ← List.take_append_getElem more]
  refine ⟨room, ?_⟩
  intro terminal member
  rcases List.mem_append.mp member with earlier | last
  · exact held.2 terminal earlier
  · rwa [List.mem_singleton.mp last]

/-! ### Reading until the buffer is full -/

/-- What reading leads to: a full buffer that holds the window, if the window is a column, else
a stop at the first unknown terminal. -/
def Loaded (table : LookaheadTable) (rest : List Terminal) (start : Nat)
    (loaded : BufferedConfiguration) : Prop :=
  loaded.position = start + min table.length (firstUnknown table.terminals rest) ∧
    ((table.axis.contains (rest.take table.length) = true ∧
        loaded.buffer = pad table.length (rest.take table.length)) ∨
      (table.axis.contains (rest.take table.length) = false ∧ ∃ row,
        BufferedTable.step ⟨table⟩ loaded =
          .failed (.noAction row loaded.buffer loaded.position)))

theorem loaded_ended (stack : List StackSymbol) (short : rest.length < table.length)
    (held : table.axis.contains rest = true) :
    Loaded table rest position
      ⟨stack, pad table.length rest, [], position + rest.length⟩ := by
  have whole : rest.take table.length = rest := List.take_of_length_le (Nat.le_of_lt short)
  have noneUnknown := firstUnknown_append (known_of_contains held) []
  rw [List.append_nil] at noneUnknown
  have allKnown : firstUnknown table.terminals rest = rest.length := noneUnknown
  refine ⟨?_, .inl ⟨by rwa [whole], by rw [whole]⟩⟩
  rw [allKnown, Nat.min_eq_right (Nat.le_of_lt short)]

theorem loaded_full (stack : List StackSymbol) (available : table.length ≤ rest.length)
    (held : table.axis.contains (rest.take table.length) = true) :
    Loaded table rest position ⟨stack, (rest.take table.length).map .terminal,
      rest.drop table.length, position + table.length⟩ := by
  have lengthTake : (rest.take table.length).length = table.length :=
    List.length_take_of_le available
  have later := firstUnknown_append (known_of_contains held) (rest.drop table.length)
  rw [List.take_append_drop, lengthTake] at later
  refine ⟨?_, .inl ⟨held, (pad_of_length_eq lengthTake).symm⟩⟩
  rw [later, Nat.min_eq_left (Nat.le_add_right _ _)]

theorem loaded_stuck {read : Nat} (available : read < rest.length) (room : read < table.length)
    (held : table.axis.contains (rest.take read) = true)
    (unknown : ¬rest[read] < table.terminals) :
    Loaded table rest position ⟨top :: below, (rest.take read).map .terminal, rest.drop read,
      position + read⟩ := by
  have lengthTake : (rest.take read).length = read :=
    List.length_take_of_le (Nat.le_of_lt available)
  have onward : rest.drop read = rest[read] :: rest.drop (read + 1) :=
    List.drop_eq_getElem_cons available
  have here : firstUnknown table.terminals rest = read := by
    have split := firstUnknown_append (known_of_contains held) (rest.drop read)
    rw [List.take_append_drop, lengthTake, onward] at split
    rw [split, firstUnknown, List.findIdx_cons]
    simp [Nat.le_of_not_lt unknown]
  refine ⟨by rw [here, Nat.min_eq_right (Nat.le_of_lt room)], .inr ⟨?_, .input rest[read], ?_⟩⟩
  · rw [← Bool.not_eq_true, Axis.contains_iff]
    rintro ⟨_, known⟩
    exact unknown (known _ (List.mem_take_iff_getElem.mpr ⟨read, by omega, rfl⟩))
  · have short : (rest.take read).length < (BufferedTable.mk table).length := by rwa [lengthTake]
    rw [onward]
    exact BufferedTable.step_unknown short held unknown

/-- From any point of reading the machine changes its buffer until it is loaded. -/
theorem exists_loaded_of_reading (top : StackSymbol) (below : List StackSymbol) (position : Nat)
    {read : Nat} (available : read ≤ rest.length)
    (held : table.axis.contains (rest.take read) = true) :
    ∃ changes loaded, Run.Path (BufferedTable.step ⟨table⟩)
        ⟨top :: below, (rest.take read).map .terminal, rest.drop read, position + read⟩
        changes loaded ∧
      (∀ move ∈ changes, move.isChange = true) ∧
      table.Tracks ⟨top :: below, rest, position⟩ (position + read + changes.length) loaded ∧
      table.Loaded rest position loaded := by
  induction room : table.length - read generalizing read with
  | zero =>
      have full : read = table.length :=
        Nat.le_antisymm (length_take_le available held) (Nat.le_of_sub_eq_zero room)
      subst full
      exact ⟨[], _, .stay _, by simp, .reading _ available held,
        loaded_full (top :: below) available held⟩
  | succ missing inductionHypothesis =>
      have notFull : read < table.length := by omega
      have lengthTake : (rest.take read).length = read := List.length_take_of_le available
      have short : (rest.take read).length < (BufferedTable.mk table).length := by
        rwa [lengthTake]
      rcases Nat.lt_or_eq_of_le available with more | exhausted
      · have onward : rest.drop read = rest[read] :: rest.drop (read + 1) :=
          List.drop_eq_getElem_cons more
        have longer : rest.take read ++ [rest[read]] = rest.take (read + 1) :=
          List.take_append_getElem more
        by_cases known : rest[read] < table.terminals
        · have heldLonger := contains_take_succ more notFull held known
          obtain ⟨changes, loaded, path, areChanges, tracks, isLoaded⟩ :=
            inductionHypothesis more heldLonger (by omega)
          have stepped : BufferedTable.step ⟨table⟩ ⟨top :: below, (rest.take read).map .terminal,
              rest[read] :: rest.drop (read + 1), position + read⟩ = _ :=
            BufferedTable.step_input short held known
          rw [longer, ← onward] at stepped
          refine ⟨.change _ :: changes, loaded, .go stepped path, ?_, ?_, isLoaded⟩
          · intro move member
            rcases List.mem_cons.mp member with rfl | later
            · rfl
            · exact areChanges move later
          · rw [List.length_cons]
            convert tracks using 1
            omega
        · exact ⟨[], _, .stay _, by simp, .reading read available held,
            loaded_stuck more notFull held known⟩
      · subst exhausted
        rw [List.take_length] at held short ⊢
        rw [List.drop_length]
        have stepped : BufferedTable.step ⟨table⟩
            ⟨top :: below, rest.map .terminal, [], position + rest.length⟩ = _ :=
          BufferedTable.step_inputEnd short held
        exact ⟨[.change (pad table.length rest)], _, .single stepped, by simp [Move.isChange],
          .ended short held, loaded_ended (top :: below) short held⟩

theorem Tracks.exists_loaded {made : Nat} {buffered : BufferedConfiguration}
    (tracks : table.Tracks ⟨top :: below, rest, position⟩ made buffered) :
    ∃ changes loaded, Run.Path (BufferedTable.step ⟨table⟩) buffered changes loaded ∧
      (∀ move ∈ changes, move.isChange = true) ∧
      table.Tracks ⟨top :: below, rest, position⟩ (made + changes.length) loaded ∧
      table.Loaded rest position loaded := by
  cases tracks with
  | reading read available held =>
      exact exists_loaded_of_reading top below position available held
  | ended short held =>
      exact ⟨[], _, .stay _, by simp, .ended short held, loaded_ended (top :: below) short held⟩

/-! ### Moves of the lookahead table -/

theorem head?_of_pop_mem {row : StackSymbol} {lookahead : List Terminal}
    (member : .pop ∈ table.select row lookahead) : ∃ terminal, lookahead.head? = some terminal := by
  have held := actionsOn_of_mem_select member
  cases row with
  | terminal number => exact ⟨number, (mem_actionsOn_terminal.mp held).2⟩
  | bottom => exact absurd (mem_actionsOn_bottom.mp held).1 (by simp)
  | state number =>
      simp only [actionsOn] at held
      split at held
      · obtain ⟨choice, _, same⟩ := List.mem_map.mp held
        exact absurd same (by simp [Choice.action])
      · exact absurd held List.not_mem_nil

theorem contains_of_select {row : StackSymbol} {lookahead : List Terminal}
    (selects : table.select row lookahead ≠ []) : table.axis.contains lookahead = true :=
  Axis.mem_columns.mp (mem_columns_of_select selects).1

theorem Tracks.stack_eq {configuration : WindowConfiguration} {made : Nat}
    {buffered : BufferedConfiguration} (tracks : table.Tracks configuration made buffered) :
    buffered.stack = configuration.stack := by
  cases tracks <;> rfl

/-- An expansion leaves the buffer alone. -/
theorem Tracks.replace {stack : List StackSymbol} {made : Nat} {loaded : BufferedConfiguration}
    (tracks : table.Tracks ⟨stack, rest, position⟩ made loaded) (other : List StackSymbol) :
    table.Tracks ⟨other, rest, position⟩ made { loaded with stack := other } := by
  cases tracks with
  | reading read available held => exact .reading read available held
  | ended short held => exact .ended short held

/-- A pop takes the first terminal off the full buffer. -/
theorem Tracks.pop {stack : List StackSymbol} {terminal : Terminal} {made : Nat}
    {loaded : BufferedConfiguration} (positive : 0 < table.length)
    (tracks : table.Tracks ⟨stack, terminal :: rest, position⟩ made loaded)
    (full : loaded.buffer = pad table.length ((terminal :: rest).take table.length))
    (other : List StackSymbol) :
    table.Tracks ⟨other, rest, position + 1⟩ made { loaded with
      stack := other
      buffer := loaded.buffer.tail ++
        if ((terminal :: rest).take table.length).length < table.length then [.endMark]
        else [] } := by
  cases tracks with
  | reading read available held =>
      dsimp only at full ⊢
      have sameLength : read = table.length := by
        have lengths := congrArg List.length full
        rwa [length_pad (List.length_take_le _ _), List.length_map,
          List.length_take_of_le available] at lengths
      obtain ⟨less, more⟩ := Nat.exists_eq_add_of_le' positive
      have notShort : ¬((terminal :: rest).take table.length).length < table.length := by
        rw [← sameLength, List.length_take_of_le available]
        exact Nat.lt_irrefl read
      rw [if_neg notShort, List.append_nil]
      have oneMore : read = less + 1 := by omega
      subst oneMore
      have availableRest : less ≤ rest.length := Nat.le_of_succ_le_succ available
      have heldRest : table.axis.contains (rest.take less) = true := Axis.contains_of_cons held
      have tracked : table.Tracks ⟨other, rest, position + 1⟩ _ _ :=
        .reading less availableRest heldRest
      rw [Nat.add_right_comm, Nat.add_assoc] at tracked
      exact tracked
  | ended short held =>
      dsimp only at full ⊢
      have whole : (terminal :: rest).take table.length = terminal :: rest :=
        List.take_of_length_le (Nat.le_of_lt short)
      rw [whole, if_pos short, tail_pad_append short]
      have heldRest : table.axis.contains rest = true := Axis.contains_of_cons held
      have tracked : table.Tracks ⟨other, rest, position + 1⟩ _ _ :=
        .ended (Nat.lt_of_succ_lt short) heldRest
      rw [Nat.add_right_comm position 1] at tracked
      exact tracked

/-- Where the lookahead table selects anything, the buffer is full, and the step follows. -/
theorem Loaded.step_eq {loaded : BufferedConfiguration}
    (isLoaded : table.Loaded rest position loaded) (pushdown : loaded.stack = top :: below)
    (selects : table.select top (rest.take table.length) ≠ []) :
    loaded.buffer = pad table.length (rest.take table.length) ∧
      BufferedTable.step ⟨table⟩ loaded =
        BufferedTable.fullStep table top below (rest.take table.length) loaded := by
  have inside := contains_of_select selects
  rcases isLoaded.2 with ⟨_, isFull⟩ | ⟨outside, _⟩
  · exact ⟨isFull, BufferedTable.step_full (List.length_take_le _ _) pushdown isFull⟩
  · exact absurd (inside.symm.trans outside) (by simp)

/-- The buffered machine reads until its buffer is full, then makes the same move. -/
theorem Tracks.move (positive : 0 < table.length) {configuration next : WindowConfiguration}
    {made : Nat} {buffered : BufferedConfiguration}
    (tracks : table.Tracks configuration made buffered) {move : Move}
    (moved : table.step configuration = .moved move next) :
    ∃ changes after, Run.Path (BufferedTable.step ⟨table⟩) buffered (changes ++ [move]) after ∧
      (∀ change ∈ changes, change.isChange = true) ∧ move.isChange = false ∧
      table.Tracks next (made + changes.length) after := by
  have stepped := table.steps configuration
  rw [moved] at stepped
  cases stepped with
  | @pops top below rest position selects =>
      obtain ⟨changes, loaded, path, areChanges, tracked, isLoaded⟩ := tracks.exists_loaded
      obtain ⟨isFull, follows⟩ := isLoaded.step_eq tracked.stack_eq (by simp [selects])
      rw [BufferedTable.fullStep, selects] at follows
      obtain ⟨terminal, starts⟩ := head?_of_pop_mem (selects ▸ List.mem_singleton_self _)
      have split := eq_cons_of_head?_take starts
      generalize rest.tail = behind at split ⊢
      subst split
      exact ⟨changes, _, path.trans (.single follows), areChanges, rfl,
        tracked.pop positive isFull below⟩
  | @expands top below replacement rest position rule selects =>
      obtain ⟨changes, loaded, path, areChanges, tracked, isLoaded⟩ := tracks.exists_loaded
      obtain ⟨_, follows⟩ := isLoaded.step_eq tracked.stack_eq (by simp [selects])
      rw [BufferedTable.fullStep, selects] at follows
      exact ⟨changes, _, path.trans (.single follows), areChanges, rfl, tracked.replace _⟩

/-- Without its changes, a path of the buffered machine is that of the other one. -/
theorem Tracks.path (positive : 0 < table.length) {configuration last : WindowConfiguration}
    {moves : List Move} (path : Run.Path table.step configuration moves last) {made : Nat}
    {buffered : BufferedConfiguration} (tracks : table.Tracks configuration made buffered) :
    ∃ all after, Run.Path (BufferedTable.step ⟨table⟩) buffered all after ∧
      all.filter (fun move => !move.isChange) = moves ∧
      table.Tracks last (made + all.countP Move.isChange) after := by
  induction path generalizing made buffered with
  | stay configuration => exact ⟨[], buffered, .stay buffered, rfl, tracks⟩
  | @go configuration next last move moves moved onward inductionHypothesis =>
      obtain ⟨changes, after, front, areChanges, isNone, tracksNext⟩ := tracks.move positive moved
      obtain ⟨all, final, back, same, tracksLast⟩ := inductionHypothesis tracksNext
      refine ⟨changes ++ [move] ++ all, final, front.trans back, ?_, ?_⟩
      · rw [List.filter_append, List.filter_append, filter_changes areChanges, same]
        simp [isNone]
      · have counted : changes.countP Move.isChange = changes.length :=
          List.countP_eq_length.mpr areChanges
        rw [List.countP_append, List.countP_append, counted, List.countP_singleton, isNone]
        rwa [Nat.add_assoc] at tracksLast

/-! ### Stops -/

/-- Where the lookahead table stops, the buffered machine stops in the same way. It misses an
action when it has read the whole window or all before the first unknown terminal. -/
structure StopsAlike (table : LookaheadTable) (configuration : WindowConfiguration)
    (loaded : BufferedConfiguration) : Prop where
  accepted : table.step configuration = .accepted →
    BufferedTable.step ⟨table⟩ loaded = .accepted
  ambiguous : ∀ row lookahead, table.step configuration = .failed (.ambiguous row lookahead) →
    BufferedTable.step ⟨table⟩ loaded = .failed (.ambiguous (.stack row) loaded.buffer)
  missed : ∀ row lookahead place,
    table.step configuration = .failed (.noAction row lookahead place) →
    ∃ other, BufferedTable.step ⟨table⟩ loaded = .failed (.noAction other loaded.buffer
      (configuration.position +
        min table.length (firstUnknown table.terminals configuration.rest)))

theorem Loaded.stopsAlike {loaded : BufferedConfiguration}
    (isLoaded : table.Loaded rest position loaded) (pushdown : loaded.stack = top :: below) :
    table.StopsAlike ⟨top :: below, rest, position⟩ loaded := by
  have stepped := table.steps ⟨top :: below, rest, position⟩
  constructor
  · intro accepts
    rw [accepts] at stepped
    cases stepped with
    | accepts selects =>
        rw [(isLoaded.step_eq pushdown (by simp [selects])).2, BufferedTable.fullStep, selects]
  · intro row lookahead ambiguous
    rw [ambiguous] at stepped
    cases stepped with
    | ambiguous several =>
        have selects := List.ne_nil_of_length_pos (Nat.lt_of_succ_lt several)
        rw [(isLoaded.step_eq pushdown selects).2, BufferedTable.fullStep]
        match table.select top (rest.take table.length), several with
        | first :: second :: more, _ => cases first <;> rfl
  · intro row lookahead place missed
    rw [missed] at stepped
    cases stepped with
    | noAction selects =>
        obtain ⟨reached, ⟨_, isFull⟩ | ⟨_, other, stuck⟩⟩ := isLoaded
        · have follows := BufferedTable.step_full (List.length_take_le _ _) pushdown isFull
          rw [BufferedTable.fullStep, selects, reached] at follows
          exact ⟨_, follows⟩
        · rw [reached] at stuck
          exact ⟨other, stuck⟩

/-! ### Changes -/

theorem Tracks.initial (table : LookaheadTable) (input : List Terminal) :
    table.Tracks (table.initial input) 0 (BufferedTable.initial ⟨table⟩ input) := by
  have held : table.axis.contains (input.take 0) = true := by
    rw [Axis.contains_iff]
    exact ⟨Nat.zero_le _, by simp⟩
  exact .reading 0 (Nat.zero_le _) held

theorem Tracks.made_le {configuration : WindowConfiguration} {made : Nat}
    {buffered : BufferedConfiguration} (tracks : table.Tracks configuration made buffered) :
    made ≤ configuration.position + configuration.rest.length + 1 := by
  cases tracks with
  | reading read available held =>
      dsimp only
      omega
  | ended short held => exact Nat.le_refl _

/-- An accepting machine has read every terminal and the end of the input. -/
theorem Tracks.made_of_accepted (positive : 0 < table.length) {made : Nat}
    {buffered : BufferedConfiguration}
    (tracks : table.Tracks ⟨top :: below, [], position⟩ made buffered)
    (accepts : BufferedTable.step ⟨table⟩ buffered = .accepted) : made = position + 1 := by
  cases tracks with
  | reading read available held =>
      obtain rfl : read = 0 := Nat.le_zero.mp available
      have stepped : BufferedTable.step ⟨table⟩
          ⟨top :: below, ([] : List Terminal).map .terminal, [], position⟩ = _ :=
        BufferedTable.step_inputEnd positive held
      exact absurd (stepped.symm.trans accepts) (by simp)
  | ended short held => rfl

/-- Along a path of the lookahead table the buffered one makes the same moves, then reads on
and stops alike. -/
theorem exists_buffered_path (positive : 0 < table.length) {input : List Terminal}
    {moves : List Move} (path : Run.Path table.step (table.initial input) moves
      ⟨top :: below, rest, position⟩) :
    ∃ all loaded, Run.Path (BufferedTable.step ⟨table⟩) (BufferedTable.initial ⟨table⟩ input)
        all loaded ∧
      (all.filter fun move => !move.isChange) = moves ∧
      table.Tracks ⟨top :: below, rest, position⟩ (all.countP Move.isChange) loaded ∧
      table.StopsAlike ⟨top :: below, rest, position⟩ loaded := by
  obtain ⟨front, after, frontPath, same, tracks⟩ :=
    Tracks.path positive path (Tracks.initial table input)
  obtain ⟨changes, loaded, backPath, areChanges, tracked, isLoaded⟩ := tracks.exists_loaded
  refine ⟨front ++ changes, loaded, frontPath.trans backPath, ?_, ?_,
    isLoaded.stopsAlike tracked.stack_eq⟩
  · rw [List.filter_append, filter_changes areChanges, List.append_nil, same]
  · rw [List.countP_append, List.countP_eq_length.mpr areChanges]
    rwa [Nat.zero_add] at tracked

end LookaheadTable

end Predictive
