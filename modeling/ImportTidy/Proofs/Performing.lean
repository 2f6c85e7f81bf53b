import ImportTidy.Proofs.Block

/-!
# What a statement does to the blocks

A session performs a statement entry by entry: it asks for each text whether it is
there, allocates it if it is not, and pushes its handle to a group that it may have
to make first.  On the blocks a statement is one step.  `Block.absorb` adds the texts
that are *fresh*, each once and in order, to one block.

* The texts that were seen before are those of all plain blocks for a plain
  statement, and those of the block that takes the entries for any other.
* Under squashing the first block of the same origin takes the entries.  Otherwise,
  and where there is none, they make a new block at the end.
* A plain statement without a fresh text changes nothing.

`Session.Shows.perform` says that the two agree, by an induction over the entries.
`Session.Shows.abandon` says the same of a statement that never became complete, which
makes no block for a source (`Block.settle`).
-/

namespace ImportTidy

/-! ## Fresh texts -/

/-- The texts that were not seen, each once. -/
def fresh (seen texts : List String) : List String := (texts.removeAll seen).eraseDups

@[simp] theorem fresh_nil (seen : List String) : fresh seen [] = [] := rfl

@[simp] theorem fresh_of_seen_nil (texts : List String) : fresh [] texts = texts.eraseDups := by
  rw [fresh, List.removeAll_nil]

theorem mem_fresh {seen texts : List String} {t : String} :
    t ∈ fresh seen texts ↔ t ∈ texts ∧ t ∉ seen := by
  simp [fresh, List.removeAll]

/-- Only which texts were seen matters. -/
theorem fresh_congr {seen seen' : List String} (same : ∀ t, t ∈ seen ↔ t ∈ seen')
    (texts : List String) : fresh seen texts = fresh seen' texts := by
  have equal : texts.removeAll seen = texts.removeAll seen' := by
    refine List.filter_congr fun t _ => ?_
    rw [List.elem_eq_mem, List.elem_eq_mem, decide_eq_decide.mpr (same t)]
  rw [fresh, fresh, equal]

theorem fresh_cons_of_mem {seen : List String} {t : String} (h : t ∈ seen) (ts : List String) :
    fresh seen (t :: ts) = fresh seen ts := by
  simp [fresh, List.removeAll, h]

theorem fresh_cons_of_not_mem {seen : List String} {t : String} (h : t ∉ seen)
    (ts : List String) : fresh seen (t :: ts) = t :: fresh (t :: seen) ts := by
  have kept : (t :: ts).removeAll seen = t :: ts.removeAll seen := by
    simp [List.removeAll, h]
  have rest : (ts.removeAll seen).filter (fun u => !u == t) = ts.removeAll (t :: seen) := by
    rw [List.removeAll, List.removeAll, List.filter_filter]
    refine List.filter_congr fun u _ => ?_
    simp [Bool.beq_eq_decide_eq]
  rw [fresh, kept, List.eraseDups_cons, rest, fresh]

theorem fresh_eq_nil {seen texts : List String} :
    fresh seen texts = [] ↔ ∀ t ∈ texts, t ∈ seen := by
  rw [List.eq_nil_iff_forall_not_mem]
  simp only [mem_fresh, not_and, Decidable.not_not]

/-- Nothing is left twice. -/
theorem nodup_eraseDups {α : Type} [BEq α] [LawfulBEq α] (xs : List α) : xs.eraseDups.Nodup := by
  induction h : xs.length using Nat.strongRecOn generalizing xs with
  | ind n ih =>
    cases xs with
    | nil => simp
    | cons x xs =>
      rw [List.eraseDups_cons, List.nodup_cons]
      constructor
      · simp
      · have shorter := List.length_filter_le (fun y => !y == x) xs
        rw [List.length_cons] at h
        exact ih _ (by omega) _ rfl

theorem nodup_fresh (seen texts : List String) : (fresh seen texts).Nodup := nodup_eraseDups _

/-- Something is left. -/
theorem eraseDups_ne_nil {α : Type} [BEq α] [LawfulBEq α] {xs : List α} (some : xs ≠ []) :
    xs.eraseDups ≠ [] := by
  obtain ⟨x, xs, rfl⟩ := List.exists_cons_of_ne_nil some
  rw [List.eraseDups_cons]
  exact List.cons_ne_nil _ _

/-! ## The step on blocks -/

/-- The texts of the entries. -/
def Statement.texts (st : Statement) : List String := st.entries.map Entry.text

theorem Statement.texts_ne_nil {st : Statement} (some : st.entries ≠ []) : st.texts ≠ [] :=
  fun nothing => some (List.map_eq_nil_iff.mp nothing)

namespace Block

/-- More names in the block at a place. -/
def addAt (i : Nat) (names : List String) (bs : List Block) : List Block :=
  bs.modify i (·.add names)

/-- The place of the block that takes the entries of a statement. -/
def taker? (squash : Bool) (o : Origin) (bs : List Block) : Option Nat :=
  if squash then bs.findIdx? (·.origin = o) else none

theorem origin_of_taker? {squash : Bool} {o : Origin} {bs : List Block} {i : Nat}
    (h : taker? squash o bs = some i) : ∃ b, bs[i]? = some b ∧ b.origin = o := by
  cases squash with
  | false => cases h
  | true =>
    obtain ⟨inside, sameOrigin, -⟩ := List.findIdx?_eq_some_iff_getElem.mp h
    exact ⟨bs[i], List.getElem?_eq_getElem inside, by simpa using sameOrigin⟩

/-- The names that a statement does not add again. -/
def seenBy (squash : Bool) (o : Origin) (bs : List Block) : List String :=
  match o with
  | .plain => plainNames bs
  | .source m => (((taker? squash (.source m) bs).bind (bs[·]?)).map Block.names).getD []

/-- The blocks with names of a statement. -/
def put (squash : Bool) (o : Origin) (line : Nat) (names : List String) (bs : List Block) :
    List Block :=
  match taker? squash o bs with
  | some i => addAt i names bs
  | none => bs ++ [⟨o, names, line⟩]

/-- The blocks with a statement. -/
def absorb (squash : Bool) (bs : List Block) (st : Statement) : List Block :=
  let new := fresh (seenBy squash st.origin bs) st.texts
  if st.origin = .plain ∧ new = [] then bs else put squash st.origin st.line new bs

/-- The blocks with what was settled of a statement that never became complete.  No block
is made for a source. -/
def settle (squash : Bool) (bs : List Block) (st : Statement) : List Block :=
  if st.origin ≠ .plain ∧ taker? squash st.origin bs = none then bs else absorb squash bs st

@[simp] theorem add_nil (b : Block) : b.add [] = b := by
  simp [add]

@[simp] theorem add_add (b : Block) (names names' : List String) :
    (b.add names).add names' = b.add (names ++ names') := by
  simp [add]

@[simp] theorem add_origin (b : Block) (names : List String) :
    (b.add names).origin = b.origin := rfl

@[simp] theorem add_names (b : Block) (names : List String) :
    (b.add names).names = b.names ++ names := rfl

theorem addAt_nil (i : Nat) (bs : List Block) : addAt i [] bs = bs := by
  have same : (fun b : Block => b.add []) = id := funext add_nil
  rw [addAt, same, List.modify_id]

theorem addAt_addAt (i : Nat) (names names' : List String) (bs : List Block) :
    addAt i names' (addAt i names bs) = addAt i (names ++ names') bs := by
  have same : (fun b : Block => b.add names') ∘ (fun b : Block => b.add names) =
      fun b => b.add (names ++ names') := funext fun b => add_add b names names'
  rw [addAt, addAt, addAt, List.modify_modify_eq, same]

theorem addAt_length (names : List String) (bs : List Block) (b : Block) :
    addAt bs.length names (bs ++ [b]) = bs ++ [b.add names] := by
  induction bs with
  | nil => rfl
  | cons c bs ih => exact congrArg (c :: ·) ih

end Block

/-- The group at the place of a block. -/
theorem Groups.Shows.get? {a : Arena} {gs : Groups} {bs : List Block} (h : Groups.Shows a gs bs)
    {i : Nat} {b : Block} (at_ : bs[i]? = some b) : ∃ g, gs[i]? = some g ∧ g.Shows a b := by
  induction h generalizing i with
  | nil => cases at_
  | cons shown others ih =>
    cases i with
    | zero =>
      cases at_
      exact ⟨_, rfl, shown⟩
    | succ i => exact ih at_

/-! ## Plain statements -/

section

variable {s : Session} {bs : List Block} {squash : Bool} {line i : Nat} {b : Block}

/-- A handle pushed to the group at a place adds its text to the block there. -/
theorem Groups.Shows.pushAt {a : Arena} {gs : Groups} (h : Groups.Shows a gs bs)
    (wf : a.WellFormed) (i : Nat) (text : String) :
    Groups.Shows (a.alloc text) (gs.pushAt i a.nextHandle) (Block.addAt i [text] bs) := by
  induction h generalizing i with
  | nil => simp [Groups.pushAt, Block.addAt]
  | cons shown others ih =>
    cases i with
    | zero => exact .cons (shown.push wf text) (Groups.Shows.alloc others wf text)
    | succ i => exact .cons (shown.alloc wf text) (ih i)

theorem mem_plainNames_addAt (at_ : bs[i]? = some b) (isPlain : b.origin = .plain)
    (names : List String) (t : String) :
    t ∈ plainNames (Block.addAt i names bs) ↔ t ∈ names ∨ t ∈ plainNames bs := by
  induction bs generalizing i with
  | nil => cases at_
  | cons c bs ih =>
    cases i with
    | zero =>
      cases at_
      simp [Block.addAt, plainNames, isPlain, or_left_comm]
    | succ i =>
      have rest := ih at_
      by_cases isPlain' : c.origin = .plain
      · simp only [Block.addAt, List.modify_succ_cons, plainNames, List.filter_cons, isPlain',
          decide_true, if_true, List.flatMap_cons, List.mem_append] at rest ⊢
        rw [rest, or_left_comm]
      · simpa [Block.addAt, plainNames, isPlain'] using rest

/-- The modules of a plain statement whose group is known. -/
theorem Session.Shows.addModules (wf : s.arena.WellFormed) (h : s.Shows bs)
    (at_ : bs[i]? = some b) (isPlain : b.origin = .plain) (es : List Entry) :
    (s.addModules squash line (some i) es).arena.WellFormed ∧
      (s.addModules squash line (some i) es).Shows
        (Block.addAt i (fresh (plainNames bs) (es.map Entry.text)) bs) := by
  induction es generalizing s bs b with
  | nil => exact ⟨wf, by simpa [Session.addModules, Block.addAt_nil] using h⟩
  | cons e es ih =>
    rw [Session.addModules, Session.addModule, List.map_cons]
    by_cases known : e.text ∈ plainNames bs
    · rw [if_pos ((Groups.Shows.plainContains_iff h _).mpr known), fresh_cons_of_mem known]
      exact ih wf h at_ isPlain
    · have notKnown : ¬ s.groups.plainContains s.arena e.text = true :=
        fun found => known ((Groups.Shows.plainContains_iff h _).mp found)
      rw [if_neg notKnown, fresh_cons_of_not_mem known]
      have pushed := Groups.Shows.pushAt h wf i e.text
      have atPushed : (Block.addAt i [e.text] bs)[i]? = some (b.add [e.text]) := by
        simp [Block.addAt, at_]
      have rest := ih (s := ⟨s.arena.alloc e.text, s.groups.pushAt i s.arena.nextHandle⟩)
        (Arena.wellFormed_alloc wf e.text) pushed atPushed isPlain
      rw [Block.addAt_addAt] at rest
      have same : ∀ t, t ∈ plainNames (Block.addAt i [e.text] bs) ↔ t ∈ e.text :: plainNames bs :=
        fun t => by simp [mem_plainNames_addAt at_ isPlain]
      rw [fresh_congr same] at rest
      exact rest

/-- The modules of a plain statement whose group is found before the first fresh one. -/
theorem Session.addModules_found {e : Entry}
    (notFound : ¬ s.groups.plainContains s.arena e.text = true)
    (found : (if squash then s.groups.firstPlain? else none) = some i) (es : List Entry) :
    s.addModules squash line none (e :: es) = s.addModules squash line (some i) (e :: es) := by
  simp only [Session.addModules, Session.addModule, if_neg notFound, found]
  rfl

/-- The modules of a plain statement that makes its group.  The group could have been there
before, without a name. -/
theorem Session.Shows.addModules_new (wf : s.arena.WellFormed) (h : s.Shows bs) {e : Entry}
    (fresh_ : e.text ∉ plainNames bs)
    (missing : (if squash then s.groups.firstPlain? else none) = none) (es : List Entry) :
    (s.addModules squash line none (e :: es)).arena.WellFormed ∧
      (s.addModules squash line none (e :: es)).Shows
        (bs ++ [⟨.plain, fresh (plainNames bs) ((e :: es).map Entry.text), line⟩]) := by
  let t : Session := ⟨s.arena, s.groups ++ [{ kind := .plain, line := line }]⟩
  let new : Block := ⟨.plain, [], line⟩
  have shown : t.Shows (bs ++ [new]) :=
    List.rel_append (R := Group.Shows s.arena) h (.cons ⟨rfl, rfl, rfl⟩ .nil)
  have names : plainNames (bs ++ [new]) = plainNames bs := by
    simp [plainNames, new]
  have notFound : ¬ s.groups.plainContains s.arena e.text = true := fun found =>
    fresh_ ((Groups.Shows.plainContains_iff h _).mp found)
  have notFound' : ¬ t.groups.plainContains t.arena e.text = true := fun found =>
    fresh_ (names ▸ (Groups.Shows.plainContains_iff shown _).mp found)
  have length : s.groups.length = bs.length := List.Forall₂.length_eq h
  have same : s.addModules squash line none (e :: es) =
      t.addModules squash line (some bs.length) (e :: es) := by
    simp only [Session.addModules, Session.addModule, if_neg notFound, if_neg notFound', missing,
      ← length]
    rfl
  have place : (bs ++ [new])[bs.length]? = some new := List.getElem?_concat_length
  have block : new.add (fresh (plainNames bs) ((e :: es).map Entry.text)) =
      ⟨.plain, fresh (plainNames bs) ((e :: es).map Entry.text), line⟩ := rfl
  rw [same, ← block, ← Block.addAt_length, ← names]
  exact Session.Shows.addModules (s := t) wf shown place rfl (e :: es)

/-- The modules of a plain statement. -/
theorem Session.Shows.addModules_none (wf : s.arena.WellFormed) (h : s.Shows bs)
    (es : List Entry) :
    (s.addModules squash line none es).arena.WellFormed ∧
      (s.addModules squash line none es).Shows
        (Block.absorb squash bs ⟨.plain, line, es⟩) := by
  induction es with
  | nil => exact ⟨wf, by simpa [Session.addModules, Block.absorb, Statement.texts] using h⟩
  | cons e es ih =>
    by_cases known : e.text ∈ plainNames bs
    · have found := (Groups.Shows.plainContains_iff h _).mpr known
      have skipped : Block.absorb squash bs ⟨.plain, line, e :: es⟩ =
          Block.absorb squash bs ⟨.plain, line, es⟩ := by
        simp [Block.absorb, Statement.texts, Block.seenBy, fresh_cons_of_mem known]
      rw [Session.addModules, Session.addModule, if_pos found, skipped]
      exact ih
    · have notFound : ¬ s.groups.plainContains s.arena e.text = true :=
        fun found => known ((Groups.Shows.plainContains_iff h _).mp found)
      have taken : Block.absorb squash bs ⟨.plain, line, e :: es⟩ =
          Block.put squash .plain line (fresh (plainNames bs) ((e :: es).map Entry.text)) bs := by
        simp [Block.absorb, Statement.texts, Block.seenBy, fresh_cons_of_not_mem known]
      have place : (if squash then s.groups.firstPlain? else none) =
          Block.taker? squash .plain bs := by
        rw [Groups.Shows.firstPlain?_eq h, Block.taker?]
      rw [taken, Block.put]
      cases target : Block.taker? squash .plain bs with
      | some i =>
        obtain ⟨b, at_, isPlain⟩ := Block.origin_of_taker? target
        rw [Session.addModules_found notFound (place.trans target)]
        exact Session.Shows.addModules wf h at_ isPlain (e :: es)
      | none => exact Session.Shows.addModules_new wf h known (place.trans target) es

end

/-! ## Statements with a source -/

section

variable {a : Arena} {g : Group} {b : Block}

/-- The names of a source, collected into one group.  No other group changes. -/
theorem Group.Shows.collect (wf : a.WellFormed) (h : g.Shows a b) (es : List Entry) :
    (Session.collect a g es).1.WellFormed ∧
      (Session.collect a g es).2.Shows (Session.collect a g es).1
        (b.add (fresh b.names (es.map Entry.text))) ∧
      ∀ {gs : Groups} {bs : List Block}, Groups.Shows a gs bs →
        Groups.Shows (Session.collect a g es).1 gs bs := by
  induction es generalizing a g b with
  | nil => exact ⟨wf, by simpa [Session.collect] using h, id⟩
  | cons e es ih =>
    rw [Session.collect, List.map_cons]
    by_cases known : e.text ∈ b.names
    · rw [if_pos ((h.contains_iff _).mpr known), fresh_cons_of_mem known]
      exact ih wf h
    · have notFound : ¬ g.contains a e.text = true :=
        fun found => known ((h.contains_iff _).mp found)
      rw [if_neg notFound, fresh_cons_of_not_mem known]
      obtain ⟨wf', shown, others⟩ := ih (Arena.wellFormed_alloc wf e.text) (h.push wf e.text)
      refine ⟨wf', ?_, fun h' => others (Groups.Shows.alloc h' wf e.text)⟩
      have same : ∀ t, t ∈ (b.add [e.text]).names ↔ t ∈ e.text :: b.names := by
        simp [or_comm]
      rw [fresh_congr same, Block.add_add] at shown
      exact shown

/-- A group in place of another changes the block there. -/
theorem Groups.Shows.set {gs : Groups} {bs : List Block} (h : Groups.Shows a gs bs) (i : Nat)
    {names : List String} (shown : ∀ b, bs[i]? = some b → g.Shows a (b.add names)) :
    Groups.Shows a (gs.set i g) (Block.addAt i names bs) := by
  induction h generalizing i with
  | nil => simp [Block.addAt]
  | cons first others ih =>
    cases i with
    | zero => exact .cons (shown _ rfl) others
    | succ i => exact .cons first (ih i shown)

end

/-- The group that takes the names of a source stands at the place of its block. -/
theorem Session.Shows.target?_eq {s : Session} {bs : List Block} (h : s.Shows bs) (squash : Bool)
    (m : String) :
    s.target? squash m =
      (Block.taker? squash (.source m) bs).bind fun i => s.groups[i]?.map fun g => (i, g) := by
  cases squash with
  | false => rfl
  | true =>
    rw [Session.target?, if_pos rfl, Groups.Shows.findSource?_eq h]
    simp only [Block.taker?, if_true, Option.map_eq_bind]
    rfl

/-- The group that a source would get shows the names of the statement, each once, and no
other group changes. -/
theorem Session.Shows.found {s : Session} {bs : List Block} (wf : s.arena.WellFormed)
    (h : s.Shows bs) (m : String) (line : Nat) (es : List Entry) :
    (s.found m line es).1.WellFormed ∧
      Group.Shows (s.found m line es).1 (s.found m line es).2
        ⟨.source m, fresh [] (es.map Entry.text), line⟩ ∧
      Groups.Shows (s.found m line es).1 s.groups bs := by
  have wf' := Arena.wellFormed_alloc wf m
  have new : Group.Shows (s.arena.alloc m) { kind := .source s.arena.nextHandle, line := line }
      ⟨.source m, [], line⟩ := by
    refine ⟨?_, rfl, rfl⟩
    simp [Group.origin?, Arena.get?_alloc_nextHandle wf]
  obtain ⟨wf'', filled, others⟩ := new.collect wf' es
  exact ⟨wf'', filled, others (Groups.Shows.alloc h wf m)⟩

/-- A session performs a statement as its blocks absorb it. -/
theorem Session.Shows.perform {s : Session} {bs : List Block} (wf : s.arena.WellFormed)
    (h : s.Shows bs) (squash : Bool) (st : Statement) :
    (s.perform squash st).arena.WellFormed ∧
      (s.perform squash st).Shows (Block.absorb squash bs st) := by
  obtain ⟨o, line, es⟩ := st
  cases o with
  | plain => exact Session.Shows.addModules_none wf h es
  | source m =>
    have absorbed : Block.absorb squash bs ⟨.source m, line, es⟩ =
        Block.put squash (.source m) line
          (fresh (Block.seenBy squash (.source m) bs) (es.map Entry.text)) bs := by
      simp [Block.absorb, Statement.texts]
    rw [absorbed, Block.put, Session.perform]
    simp only [h.target?_eq squash m]
    cases target : Block.taker? squash (.source m) bs with
    | some i =>
      obtain ⟨b, at_, -⟩ := Block.origin_of_taker? target
      obtain ⟨g, atGroup, shown⟩ := Groups.Shows.get? h at_
      have seen : Block.seenBy squash (.source m) bs = b.names := by
        simp [Block.seenBy, target, at_]
      obtain ⟨wf', filled, others⟩ := shown.collect wf es
      simp only [Option.bind_some, atGroup, Option.map_some, seen]
      refine ⟨wf', (others h).set i fun b' at' => ?_⟩
      cases at_.symm.trans at'
      exact filled
    | none =>
      have seen : Block.seenBy squash (.source m) bs = [] := by
        simp [Block.seenBy, target]
      obtain ⟨wf', filled, others⟩ := h.found wf m line es
      rw [seen]
      exact ⟨wf', List.rel_append others (.cons filled .nil)⟩

/-- Where no new group is wanted, what was settled of a statement is performed. -/
theorem Session.abandon_eq_perform {s : Session} {squash : Bool} {st : Statement}
    (taken : ∀ m, st.origin = .source m → s.target? squash m ≠ none) :
    s.abandon squash st = s.perform squash st := by
  rw [Session.abandon, Session.perform]
  cases origin : st.origin with
  | plain => rfl
  | source m =>
    obtain ⟨⟨place, g⟩, found⟩ := Option.ne_none_iff_exists'.mp (taken m origin)
    simp only [found]

/-- What was settled of a statement is absorbed, unless its source would need a new block. -/
theorem Session.Shows.abandon {s : Session} {bs : List Block} (wf : s.arena.WellFormed)
    (h : s.Shows bs) (squash : Bool) (st : Statement) :
    (s.abandon squash st).arena.WellFormed ∧
      (s.abandon squash st).Shows (Block.settle squash bs st) := by
  by_cases new : st.origin ≠ .plain ∧ Block.taker? squash st.origin bs = none
  · obtain ⟨notPlain, noTaker⟩ := new
    rw [Block.settle, if_pos ⟨notPlain, noTaker⟩, Session.abandon]
    cases origin : st.origin with
    | plain => exact absurd origin notPlain
    | source m =>
      rw [origin] at noTaker
      obtain ⟨wf', -, others⟩ := h.found wf m st.line st.entries
      simp only [h.target?_eq squash m, noTaker, Option.bind_none]
      exact ⟨wf', others⟩
  · rw [Block.settle, if_neg new, Session.abandon_eq_perform]
    · exact h.perform wf squash st
    · intro m origin missing
      refine new ⟨by simp [origin], ?_⟩
      rw [h.target?_eq squash m, ← origin, Option.bind_eq_none_iff] at missing
      refine Option.eq_none_iff_forall_not_mem.mpr fun i taker => ?_
      obtain ⟨b, at_, -⟩ := Block.origin_of_taker? taker
      obtain ⟨g, atGroup, -⟩ := Groups.Shows.get? h at_
      have found := missing i taker
      rw [atGroup] at found
      cases found

end ImportTidy
