import Mathlib.Data.List.Induction
import ImportTidy.Proofs.Grammar.Reading
import ImportTidy.Proofs.Performing

/-!
# What a run gathers

A run over a whole source is a fold of `Block.absorb` over its statements.  `gathered`
says what it comes to without a fold.

* Under squashing (`squashed`) there is one block for each origin, in order of the first
  statement that has it and with the line of that statement.  Its names are the entries
  of all statements of that origin, each once and in reading order.
* Otherwise (`separated`) there is one block for each statement.  A statement with a
  source keeps its own entries, each once.  A plain statement keeps those that are in no
  plain statement before it, and is left out if there are none.

So no import is lost, invented or moved.  The two halves have an induction each.  Under
squashing it adds a statement at the end, since the first statements make the blocks.
Otherwise it takes one from the front, and carries the texts of the plain statements
before.
-/

namespace ImportTidy

/-! ## Statements and their blocks -/

/-- The block that a statement makes on its own. -/
def Statement.block (st : Statement) : Block := ⟨st.origin, st.texts, st.line⟩

/-- The entries of all statements of an origin. -/
def textsOf (o : Origin) (S : List Statement) : List String :=
  (S.filter (·.origin = o)).flatMap Statement.texts

/-- The origins of the statements, each where it occurs first. -/
def originsOf (S : List Statement) : List Origin := (S.map Statement.origin).eraseDups

/-- The block of all statements of an origin. -/
def blockOf (S : List Statement) (o : Origin) : Block :=
  ⟨o, (textsOf o S).eraseDups, ((S.find? (·.origin = o)).map Statement.line).getD 0⟩

/-- One block for each origin. -/
def squashed (S : List Statement) : List Block := (originsOf S).map (blockOf S)

/-- One block for each statement that has something new.  `seen` has the entries of the
plain statements before. -/
def separated (seen : List String) : List Statement → List Block
  | [] => []
  | st :: S =>
      match st.origin with
      | .source m => ⟨.source m, st.texts.eraseDups, st.line⟩ :: separated seen S
      | .plain =>
          let own := fresh seen st.texts
          (if own = [] then [] else [⟨.plain, own, st.line⟩]) ++ separated (seen ++ st.texts) S

/-- The blocks of the statements of a source. -/
def gathered (squash : Bool) (S : List Statement) : List Block :=
  if squash then squashed S else separated [] S

/-! ## One more statement, squashing -/

namespace Block

variable {bs : List Block} {o : Origin} {names : List String} {line : Nat}

theorem put_cons (b : Block) :
    put true o line names (b :: bs) =
      if b.origin = o then b.add names :: bs else b :: put true o line names bs := by
  simp only [put, taker?, if_true, List.findIdx?_cons]
  by_cases same : b.origin = o
  · simp [same, addAt]
  · simp only [same, decide_false, Bool.false_eq_true, if_false]
    cases bs.findIdx? (·.origin = o) <;> rfl

/-- A new origin gets a block at the end. -/
theorem put_of_forall_ne (missing : ∀ b ∈ bs, b.origin ≠ o) :
    put true o line names bs = bs ++ [⟨o, names, line⟩] := by
  have none : bs.findIdx? (·.origin = o) = none :=
    List.findIdx?_eq_none_iff.mpr fun b hb => decide_eq_false (missing b hb)
  simp [put, taker?, none]

/-- Only the block of the origin changes. -/
theorem put_map {os : List Origin} {f f' : Origin → Block} (nodup : os.Nodup) (mem : o ∈ os)
    (origins : ∀ o', (f o').origin = o') (here : f' o = (f o).add names)
    (elsewhere : ∀ o' ≠ o, f' o' = f o') : put true o line names (os.map f) = os.map f' := by
  induction os with
  | nil => cases mem
  | cons o' os ih =>
    obtain ⟨notMem, nodup⟩ := List.nodup_cons.mp nodup
    rw [List.map_cons, List.map_cons, put_cons, origins]
    by_cases same : o' = o
    · subst same
      rw [if_pos rfl, here]
      congr 1
      refine List.map_congr_left fun o'' h => (elsewhere o'' ?_).symm
      rintro rfl
      exact notMem h
    · rw [if_neg same, elsewhere o' same, ih nodup]
      rcases List.mem_cons.mp mem with rfl | mem
      · exact absurd rfl same
      · exact mem

/-- Where no two blocks have one origin, the names of an origin are those of its block. -/
theorem mem_seenBy (nodup : (bs.map Block.origin).Nodup) {t : String} :
    t ∈ seenBy true o bs ↔ ∃ b ∈ bs, b.origin = o ∧ t ∈ b.names := by
  cases o with
  | plain => exact mem_plainNames
  | source m =>
    simp only [seenBy, taker?, if_true]
    induction bs with
    | nil => simp
    | cons b bs ih =>
      rw [List.map_cons] at nodup
      obtain ⟨notMem, nodup⟩ := List.nodup_cons.mp nodup
      rw [List.findIdx?_cons]
      by_cases same : b.origin = .source m
      · have others : ∀ b' ∈ bs, b'.origin ≠ .source m := fun b' hb' same' =>
          notMem (List.mem_map.mpr ⟨b', hb', same'.trans same.symm⟩)
        simp only [same, decide_true, if_true, Option.bind_some, List.getElem?_cons_zero,
          Option.map_some, Option.getD_some, List.mem_cons, exists_eq_or_imp, true_and]
        constructor
        · exact .inl
        · rintro (found | ⟨b', hb', same', -⟩)
          · exact found
          · exact absurd same' (others b' hb')
      · simp only [same, decide_false, Bool.false_eq_true, if_false, List.mem_cons,
          exists_eq_or_imp, false_and, false_or, ← ih nodup]
        cases bs.findIdx? (·.origin = .source m) <;> simp

/-- A statement always puts its fresh names, since a plain one without any finds its
block. -/
theorem absorb_eq_put {st : Statement}
    (found : fresh (seenBy true st.origin bs) st.texts = [] → ∃ b ∈ bs, b.origin = st.origin) :
    absorb true bs st =
      put true st.origin st.line (fresh (seenBy true st.origin bs) st.texts) bs := by
  rw [absorb]
  split
  next nothing =>
    obtain ⟨b, hb, same⟩ := found nothing.2
    rw [nothing.2, put]
    cases target : taker? true st.origin bs with
    | some i => exact (addAt_nil i bs).symm
    | none =>
      have missing := List.findIdx?_eq_none_iff.mp target b hb
      simp [same] at missing
  next => rfl

end Block

theorem nodup_originsOf (S : List Statement) : (originsOf S).Nodup := nodup_eraseDups _

theorem mem_originsOf {o : Origin} {S : List Statement} :
    o ∈ originsOf S ↔ ∃ st ∈ S, st.origin = o := by
  simp [originsOf]

theorem map_origin_squashed (S : List Statement) :
    (squashed S).map Block.origin = originsOf S := by
  simp [squashed, blockOf, Function.comp_def]

theorem mem_textsOf {o : Origin} {S : List Statement} {t : String} :
    t ∈ textsOf o S ↔ ∃ st ∈ S, st.origin = o ∧ t ∈ st.texts := by
  simp [textsOf, and_assoc]

theorem mem_seenBy_squashed {o : Origin} {S : List Statement} {t : String} :
    t ∈ Block.seenBy true o (squashed S) ↔ t ∈ textsOf o S := by
  rw [Block.mem_seenBy (map_origin_squashed S ▸ nodup_originsOf S)]
  constructor
  · rintro ⟨b, hb, rfl, ht⟩
    obtain ⟨o, -, rfl⟩ := List.mem_map.mp hb
    exact List.mem_eraseDups.mp ht
  · intro ht
    obtain ⟨st, hst, rfl, -⟩ := mem_textsOf.mp ht
    exact ⟨blockOf S st.origin, List.mem_map_of_mem (mem_originsOf.mpr ⟨st, hst, rfl⟩), rfl,
      List.mem_eraseDups.mpr ht⟩

theorem originsOf_concat (S : List Statement) (st : Statement) :
    originsOf (S ++ [st]) =
      if st.origin ∈ originsOf S then originsOf S else originsOf S ++ [st.origin] := by
  have found : st.origin ∈ originsOf S ↔ st.origin ∈ S.map Statement.origin := List.mem_eraseDups
  have appended : originsOf (S ++ [st]) =
      originsOf S ++ ([st.origin].removeAll (S.map Statement.origin)).eraseDups := by
    rw [originsOf, List.map_append, List.eraseDups_append]
    rfl
  by_cases known : st.origin ∈ originsOf S
  · have dropped : [st.origin].removeAll (S.map Statement.origin) = [] :=
      List.filter_eq_nil_iff.mpr (by simpa using found.mp known)
    rw [if_pos known, appended, dropped, List.eraseDups_nil, List.append_nil]
  · have kept : [st.origin].removeAll (S.map Statement.origin) = [st.origin] :=
      List.filter_eq_self.mpr (by simpa using fun h => known (found.mpr (List.mem_map.mpr h)))
    rw [if_neg known, appended, kept]
    rfl

/-- A statement is not in the block of another origin. -/
theorem blockOf_concat_of_ne {S : List Statement} {st : Statement} {o : Origin}
    (other : o ≠ st.origin) : blockOf (S ++ [st]) o = blockOf S o := by
  have notHere : st.origin ≠ o := other.symm
  simp [blockOf, textsOf, List.find?_append, notHere]

/-- A statement adds its fresh entries to the block of its origin. -/
theorem blockOf_concat {S : List Statement} {st : Statement} (known : st.origin ∈ originsOf S) :
    blockOf (S ++ [st]) st.origin =
      (blockOf S st.origin).add (fresh (textsOf st.origin S) st.texts) := by
  obtain ⟨first, hfirst, same⟩ := mem_originsOf.mp known
  have line : S.find? (·.origin = st.origin) ≠ none := fun missing => by
    simpa [same] using List.find?_eq_none.mp missing first hfirst
  obtain ⟨found, found_eq⟩ := Option.ne_none_iff_exists'.mp line
  simp [blockOf, textsOf, Block.add, List.eraseDups_append, List.find?_append, found_eq, fresh]

/-- The first statement of an origin makes its block. -/
theorem blockOf_concat_of_not_mem {S : List Statement} {st : Statement}
    (new : st.origin ∉ originsOf S) :
    blockOf (S ++ [st]) st.origin = ⟨st.origin, st.texts.eraseDups, st.line⟩ := by
  have noOthers : ∀ st' ∈ S, st'.origin ≠ st.origin := by
    simpa [mem_originsOf] using new
  have missing : S.filter (·.origin = st.origin) = [] := by
    simpa using noOthers
  have missing' : S.find? (·.origin = st.origin) = none := by
    simpa using noOthers
  simp [blockOf, textsOf, List.find?_append, missing, missing']

/-- The step lemma of squashing: the blocks of the statements absorb one more. -/
theorem squashed_concat (S : List Statement) {st : Statement} (entries : st.entries ≠ []) :
    Block.absorb true (squashed S) st = squashed (S ++ [st]) := by
  have seen := fresh_congr (fun t => mem_seenBy_squashed (o := st.origin) (S := S) (t := t))
    st.texts
  rw [show squashed (S ++ [st]) = (originsOf (S ++ [st])).map (blockOf (S ++ [st])) from rfl,
    originsOf_concat]
  by_cases known : st.origin ∈ originsOf S
  · have found : ∃ b ∈ squashed S, b.origin = st.origin :=
      ⟨blockOf S st.origin, List.mem_map_of_mem known, rfl⟩
    rw [if_pos known, Block.absorb_eq_put fun _ => found, seen]
    exact Block.put_map (nodup_originsOf S) known (fun _ => rfl) (blockOf_concat known)
      fun _ other => blockOf_concat_of_ne other
  · have noTexts : textsOf st.origin S = [] := by
      rw [List.eq_nil_iff_forall_not_mem]
      intro t ht
      obtain ⟨st', hst', same, -⟩ := mem_textsOf.mp ht
      exact known (mem_originsOf.mpr ⟨st', hst', same⟩)
    have something : fresh (Block.seenBy true st.origin (squashed S)) st.texts ≠ [] := by
      rw [seen, noTexts]
      intro nothing
      obtain ⟨e, es, entries_eq⟩ := List.exists_cons_of_ne_nil entries
      have first := fresh_eq_nil.mp nothing e.text (by simp [Statement.texts, entries_eq])
      cases first
    have missing : ∀ b ∈ squashed S, b.origin ≠ st.origin := by
      intro b hb same
      obtain ⟨o, ho, rfl⟩ := List.mem_map.mp hb
      exact known (same ▸ ho)
    have kept : (originsOf S).map (blockOf (S ++ [st])) = squashed S :=
      List.map_congr_left fun o ho => blockOf_concat_of_ne fun same => known (same ▸ ho)
    rw [if_neg known, Block.absorb_eq_put fun nothing => absurd nothing something,
      Block.put_of_forall_ne missing, seen, noTexts, fresh_of_seen_nil, List.map_append, kept,
      List.map_singleton, blockOf_concat_of_not_mem known]

/-- Under squashing the statements fold to one block for each origin. -/
theorem foldl_absorb_squash {S : List Statement} (entries : ∀ st ∈ S, st.entries ≠ []) :
    S.foldl (Block.absorb true) [] = squashed S := by
  induction S using List.reverseRecOn with
  | nil => rfl
  | append_singleton S st ih =>
    rw [List.foldl_append, List.foldl_cons, List.foldl_nil,
      ih fun st' h => entries st' (List.mem_append_left _ h)]
    exact squashed_concat S (entries st (by simp))

/-! ## One more statement, not squashing -/

theorem plainNames_append (bs bs' : List Block) :
    plainNames (bs ++ bs') = plainNames bs ++ plainNames bs' := by
  simp [plainNames]

/-- The block of a plain statement is left out if the statement has nothing new. -/
theorem plainNames_ownBlock (names : List String) (line : Nat) :
    plainNames (if names = [] then [] else [⟨.plain, names, line⟩]) = names := by
  by_cases nothing : names = []
  · simp [nothing, plainNames]
  · simp [nothing, plainNames]

/-- Otherwise the statements fold to one block each. -/
theorem foldl_absorb_separate (S : List Statement) {bs : List Block} {seen : List String}
    (same : ∀ t, t ∈ seen ↔ t ∈ plainNames bs) :
    S.foldl (Block.absorb false) bs = bs ++ separated seen S := by
  induction S generalizing bs seen with
  | nil => simp [separated]
  | cons st S ih =>
    obtain ⟨o, line, es⟩ := st
    rw [List.foldl_cons, separated]
    cases o with
    | source m =>
      have absorbed : Block.absorb false bs ⟨.source m, line, es⟩ =
          bs ++ [⟨.source m, Statement.texts ⟨.source m, line, es⟩ |>.eraseDups, line⟩] := by
        simp [Block.absorb, Block.put, Block.taker?, Block.seenBy]
      have kept : ∀ t, t ∈ seen ↔ t ∈ plainNames (Block.absorb false bs ⟨.source m, line, es⟩) := by
        intro t
        rw [same, absorbed, plainNames_append]
        simp [plainNames]
      rw [ih kept, absorbed, List.append_assoc]
      rfl
    | plain =>
      let st : Statement := ⟨.plain, line, es⟩
      have new : fresh (Block.seenBy false .plain bs) st.texts = fresh seen st.texts :=
        fresh_congr (fun t => (same t).symm) _
      have absorbed : Block.absorb false bs st =
          bs ++ if fresh seen st.texts = [] then [] else [⟨.plain, fresh seen st.texts, line⟩] := by
        simp only [Block.absorb, st, true_and, Block.put, Block.taker?, Bool.false_eq_true,
          if_false, new]
        split <;> simp
      have grown : ∀ t, t ∈ seen ++ st.texts ↔ t ∈ plainNames (Block.absorb false bs st) := by
        intro t
        rw [absorbed, plainNames_append, plainNames_ownBlock, List.mem_append, List.mem_append,
          ← same, mem_fresh]
        by_cases before : t ∈ seen
        · simp [before]
        · simp [before]
      show List.foldl _ (Block.absorb false bs st) S = _
      rw [ih grown, absorbed, List.append_assoc]

/-- A source folds to what it gathers. -/
theorem foldl_absorb {S : List Statement} (squash : Bool) (entries : ∀ st ∈ S, st.entries ≠ []) :
    S.foldl (Block.absorb squash) [] = gathered squash S := by
  cases squash with
  | true => exact foldl_absorb_squash entries
  | false => exact foldl_absorb_separate S fun t => by simp [plainNames]

/-! ## Runs -/

/-- A session shows what its blocks absorb, over any number of statements. -/
theorem Session.Shows.performAll {s : Session} {bs : List Block} (wf : s.arena.WellFormed)
    (h : s.Shows bs) (squash : Bool) (S : List Statement) :
    (s.performAll squash S).arena.WellFormed ∧
      (s.performAll squash S).Shows (S.foldl (Block.absorb squash) bs) := by
  induction S generalizing s bs with
  | nil => exact ⟨wf, h⟩
  | cons st S ih =>
    obtain ⟨wf', shown⟩ := h.perform wf squash st
    exact ih wf' shown

/-- Every statement of a source has an entry. -/
theorem Grammar.Reads.entries_ne_nil {fresh : Bool} {tokens : TokenStream} {S : List Statement}
    {fault : Option SyntaxFault} (h : Reads fresh tokens S fault) :
    ∀ st ∈ S, st.entries ≠ [] := by
  induction h with
  | statement spelled _ _ ih =>
    rw [List.forall_mem_cons]
    exact ⟨spelled.ne_nil, ih⟩
  | skip _ _ ih => exact ih
  | _ => nofun

/-- A run without a fault performs every statement. -/
theorem Session.follow_of_no_fault {squash : Bool} {s : Session} {script : Script}
    (h : (s.follow squash script).2 = none) :
    (s.follow squash script).1 = s.performAll squash script.statements := by
  rw [follow_fault] at h
  cases ending : script.ending with
  | complete => rw [follow, ending]
  | broken settled fault =>
    rw [ending] at h
    cases h

/-- Without a fault the grammar gives the statements of the script. -/
theorem Session.reads_of_no_fault {settings : SortSettings} {s : Session} {feed : Feed}
    (h : (s.run settings feed).2 = none) :
    Grammar.Reads true (.ofFeed feed) (Script.ofFeed feed).statements none :=
  Grammar.reads_iff.mpr ⟨rfl, (follow_fault settings.squash s _).symm.trans h⟩

/-- Without a fault the statements of a source are performed in order on nothing. -/
theorem Session.run_shows_gathered {settings : SortSettings} {feed : Feed}
    (h : (Session.run settings {} feed).2 = none) :
    (Session.run settings {} feed).1.arena.WellFormed ∧
      (Session.run settings {} feed).1.Shows
        (gathered settings.squash (Script.ofFeed feed).statements) := by
  have read := Session.reads_of_no_fault h
  have nothing : Session.Shows {} [] := List.Forall₂.nil
  rw [Session.run, follow_of_no_fault h, ← foldl_absorb _ read.entries_ne_nil]
  exact nothing.performAll (Arena.wellFormed_clear {}) _ _

/-- The statements that the grammar gives are gathered. -/
theorem Session.shows_of_reads (settings : SortSettings) {feed : Feed} {S : List Statement}
    (h : Grammar.Reads true (.ofFeed feed) S none) :
    (Session.run settings {} feed).2 = none ∧
      (Session.run settings {} feed).1.Shows (gathered settings.squash S) := by
  obtain ⟨rfl, ends⟩ := Grammar.reads_iff.mp h
  have read : (Session.run settings {} feed).2 = none := (follow_fault ..).trans ends
  exact ⟨read, (run_shows_gathered read).2⟩

/-- What a run makes of a source. -/
theorem reorganize_eq_ok_iff {settings : SortSettings} {source out : String} :
    reorganize settings source = .ok out ↔
      (Session.runBytes settings {} (Utf8.encode source)).2 = none ∧
        (Session.runBytes settings {} (Utf8.encode source)).1.render settings.wrap = out := by
  rw [reorganize]
  split
  next s run =>
    rw [run]
    simp
  next s fault run =>
    rw [run]
    simp

/-- What is made of a source is what its statements gather, rendered. -/
theorem reorganize_eq_ok_iff_reads {settings : SortSettings} {source out : String} :
    reorganize settings source = .ok out ↔
      ∃ S, Grammar.Reads true (.ofFeed (.ofText settings.maxLineLength source)) S none ∧
        renderBlocks settings.wrap (gathered settings.squash S) = out := by
  rw [reorganize_eq_ok_iff]
  constructor
  · rintro ⟨read, rendered⟩
    exact ⟨_, Session.reads_of_no_fault read,
      ((Session.run_shows_gathered read).2.render _).symm.trans rendered⟩
  · rintro ⟨S, reads, rendered⟩
    obtain ⟨read, shown⟩ := Session.shows_of_reads settings reads
    exact ⟨read, (shown.render _).trans rendered⟩

/-- Nothing is lost, invented or moved.  Where a fresh session reads a source without a
fault, the grammar gives the source exactly one list of statements, and the groups of the
session are what this list gathers. -/
theorem Session.run_gathers (settings : SortSettings) (feed : Feed)
    (h : (Session.run settings {} feed).2 = none) :
    ∃ S, (∀ S', Grammar.Reads true (.ofFeed feed) S' none ↔ S' = S) ∧
      (Session.run settings {} feed).1.Shows (gathered settings.squash S) := by
  refine ⟨(Script.ofFeed feed).statements, fun S' => ?_, (run_shows_gathered h).2⟩
  rw [Grammar.reads_iff, and_iff_left (Grammar.reads_iff.mp (reads_of_no_fault h)).2]
  exact eq_comm

/-- Squashing joins two statements with one source, and a module is taken once. -/
theorem Session.run_gathers_two_sources :
    ∃ S, (∀ S', Grammar.Reads true
        (.ofFeed [.ok "from m import b\n", .ok "import c\n", .ok "from m import a, b\n"]) S' none ↔
          S' = S) ∧
      (Session.run {} {}
        [.ok "from m import b\n", .ok "import c\n", .ok "from m import a, b\n"]).1.Shows
          (gathered true S) :=
  Session.run_gathers {} [.ok "from m import b\n", .ok "import c\n", .ok "from m import a, b\n"]
    (by decide +kernel)

end ImportTidy
