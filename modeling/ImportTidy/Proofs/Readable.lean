import ImportTidy.Proofs.RoundTrip

/-!
# What a run makes can be read

Whatever the source is, the blocks that a run makes of it satisfy what reading them back
needs: their names and sources can be read (`Block.Proper`), and no two of them are in
each other's way (`Distinct`).

The first is a property of tokens.  It goes from the tokens of the input to the words of
its statements (`Grammar.Reads.proper`), and from there to the blocks.  The second comes
from how statements are gathered.

`Absorbs` says what a statement can do to the blocks, without saying when it does which.
This is enough for both properties, and for the lines of the blocks.  `AbsorbsAll` has it
for statements one after the other.
-/

namespace ImportTidy

/-! ## Tokens of a stream -/

/-- Every token of the stream has the property. -/
def TokenStream.Holds (P : Token → Prop) : TokenStream → Prop
  | .finish _ => True
  | .token t rest => P t ∧ rest.Holds P
  | .failed _ _ rest => rest.Holds P

namespace TokenStream.Holds

variable {P : Token → Prop} {ts : List Token} {rest behind : TokenStream}

theorem ofTokens_iff : (TokenStream.ofTokens ts rest).Holds P ↔ (∀ t ∈ ts, P t) ∧ rest.Holds P := by
  induction ts with
  | nil => simp [TokenStream.ofTokens]
  | cons t ts ih =>
    rw [List.forall_mem_cons, and_assoc, ← ih]
    rfl

theorem next {found : Except ReadError Token} (h : behind.Holds P)
    (next : behind.next = (found, rest)) : rest.Holds P := by
  cases behind with
  | finish line =>
    cases next
    trivial
  | token t rest' =>
    cases next
    exact h.2
  | failed n e rest' =>
    cases next
    exact h

/-- What holds of the tokens of every line holds of those of a feed. -/
theorem ofFeed {feed : Feed} (h : ∀ text, .ok text ∈ feed → ∀ n, ∀ t ∈ Token.ofLine n text, P t)
    (n : Nat) : (TokenStream.after n feed).Holds P := by
  induction feed generalizing n with
  | nil => trivial
  | cons read feed ih =>
    have others := ih fun text mem => h text (List.mem_cons_of_mem _ mem)
    cases read with
    | error e => exact others n
    | ok text => exact ofTokens_iff.mpr ⟨h text (by simp) (n + 1), others (n + 1)⟩

end TokenStream.Holds

/-! ## Statements -/

/-- What there is of the statement can be read again. -/
structure Statement.Legible (st : Statement) : Prop where
  /-- Its source can be read. -/
  source : ∀ m, st.origin = .source m → IsIdentifier m
  /-- So can its entries. -/
  entries : ∀ e ∈ st.entries, e.Proper

/-- The statement can be read again. -/
structure Statement.Proper (st : Statement) : Prop extends st.Legible where
  /-- It has an entry. -/
  ne_nil : st.entries ≠ []

namespace Grammar

/-- The identifiers among the words can be read. -/
def Legible (ws : List Word) : Prop := ∀ w ∈ ws, w.kind = .identifier → IsIdentifier w.text

theorem Legible.of_append {ws ws' : List Word} (h : Legible (ws ++ ws')) :
    Legible ws ∧ Legible ws' :=
  ⟨fun w hw => h w (List.mem_append_left _ hw), fun w hw => h w (List.mem_append_right _ hw)⟩

theorem SpellsEntry.proper {e : Entry} {ws : List Word} (h : SpellsEntry e ws)
    (legible : Legible ws) : e.Proper := by
  cases h with
  | @name n => exact ⟨legible ⟨.identifier, n⟩ (by simp) rfl, nofun⟩
  | @renamed n a =>
    refine ⟨legible ⟨.identifier, n⟩ (by simp) rfl, ?_⟩
    rintro _ ⟨⟩
    exact legible ⟨.identifier, a⟩ (by simp) rfl

theorem SpellsEntries.proper {es : List Entry} {ws : List Word} (h : SpellsEntries es ws)
    (legible : Legible ws) : ∀ e ∈ es, e.Proper := by
  induction h with
  | one entry =>
    rw [List.forall_mem_singleton]
    exact entry.proper legible
  | more _ _ entry ih =>
    obtain ⟨front, own⟩ := legible.of_append
    intro e he
    rcases List.mem_append.mp he with he | he
    · exact ih front e he
    · rw [List.mem_singleton.mp he]
      exact entry.proper fun w hw => own w (List.mem_cons_of_mem _ hw)

theorem SpellsList.proper {es : List Entry} {ws : List Word} {next : Word}
    (h : SpellsList es ws next) (legible : Legible ws) : ∀ e ∈ es, e.Proper := by
  cases h with
  | bare entries => exact entries.proper legible
  | @enclosed inner _ body _ _ _ _ entries _ between _ =>
    refine entries.proper fun w hw => legible w ?_
    have inBody : w ∈ withoutBreaks body := between ▸ List.mem_append_left _ hw
    exact List.mem_append_left _ (List.mem_cons_of_mem _ (List.mem_filter.mp inBody).1)

theorem SpellsLead.proper {o : Origin} {ws : List Word} (h : SpellsLead o ws)
    (legible : Legible ws) : ∀ m, o = .source m → IsIdentifier m := by
  cases h with
  | plain => nofun
  | @source _ _ m =>
    rintro _ ⟨⟩
    exact legible ⟨.identifier, m⟩ (by simp) rfl

/-- The statements of legible tokens can be read again. -/
theorem Reads.proper {fresh : Bool} {tokens : TokenStream} {S : List Statement}
    {fault : Option SyntaxFault} (h : Reads fresh tokens S fault)
    (legible : tokens.Holds fun t => t.kind = .identifier → IsIdentifier t.text) :
    ∀ st ∈ S, st.Proper := by
  induction h with
  | skip _ _ ih => exact ih legible.2
  | @statement first next ts behind rest o es S fault spelled ends _ ih =>
    obtain ⟨own, others⟩ := TokenStream.Holds.ofTokens_iff.mp legible
    rw [List.forall_mem_cons]
    refine ⟨?_, ih (others.next ends)⟩
    have words : Legible (wordsOf (first :: ts)) := by
      intro w hw
      obtain ⟨t, ht, rfl⟩ := List.mem_map.mp hw
      exact own t ht
    have some := spelled.ne_nil
    generalize wordsOf (first :: ts) = ws at spelled words
    cases spelled with
    | intro start list =>
      exact ⟨⟨start.proper words.of_append.1, list.proper words.of_append.2⟩, some⟩
  | _ => nofun

end Grammar

theorem Statement.Legible.isName {st : Statement} (h : st.Legible) : ∀ t ∈ st.texts, IsName t := by
  intro t ht
  obtain ⟨e, he, rfl⟩ := List.mem_map.mp ht
  exact ⟨e, h.entries e he, rfl⟩

/-! ## Blocks -/

/-- What a statement can do to the blocks. -/
inductive Absorbs (squash : Bool) (st : Statement) (bs : List Block) : List Block → Prop where
  /-- Nothing. -/
  | kept : Absorbs squash st bs bs
  /-- Its fresh texts make a block at the end. -/
  | made {new : List String} (isNew : new = fresh (Block.seenBy squash st.origin bs) st.texts)
      (missing : Block.taker? squash st.origin bs = none) (some : new ≠ []) :
      Absorbs squash st bs (bs ++ [⟨st.origin, new, st.line⟩])
  /-- They go to a block of the same origin, which has none of them. -/
  | joined {front behind : List Block} {b : Block} {new : List String}
      (isNew : new = fresh (Block.seenBy squash st.origin bs) st.texts)
      (here : bs = front ++ b :: behind) (same : b.origin = st.origin)
      (seen : ∀ t ∈ b.names, t ∈ Block.seenBy squash st.origin bs) :
      Absorbs squash st bs (front ++ b.add new :: behind)

section

variable {squash : Bool} {st : Statement} {bs bs' : List Block}

/-- A statement does not repeat the names of the block that takes its entries. -/
theorem mem_seenBy_of_taker? {o : Origin} {i : Nat} {b : Block}
    (taker : Block.taker? squash o bs = some i) (at_ : bs[i]? = some b) (same : b.origin = o) :
    ∀ t ∈ b.names, t ∈ Block.seenBy squash o bs := by
  intro t ht
  cases o with
  | plain => exact mem_plainNames.mpr ⟨b, List.mem_of_getElem? at_, same, ht⟩
  | source m => simpa [Block.seenBy, taker, at_] using ht

theorem absorbs_put
    (some : Block.taker? squash st.origin bs = none →
      fresh (Block.seenBy squash st.origin bs) st.texts ≠ []) :
    Absorbs squash st bs
      (Block.put squash st.origin st.line (fresh (Block.seenBy squash st.origin bs) st.texts)
        bs) := by
  rw [Block.put]
  split
  next i taker =>
    obtain ⟨b, at_, same⟩ := Block.origin_of_taker? taker
    obtain ⟨inside, rfl⟩ := List.getElem?_eq_some_iff.mp at_
    have here : bs = bs.take i ++ bs[i] :: bs.drop (i + 1) := by
      rw [List.getElem_cons_drop, List.take_append_drop]
    rw [Block.addAt, List.modify_eq_take_cons_drop inside]
    exact .joined rfl here same (mem_seenBy_of_taker? taker at_ same)
  next missing => exact .made rfl missing (some missing)

theorem absorbs_absorb_of
    (some : st.origin ≠ .plain → Block.taker? squash st.origin bs = none →
      fresh (Block.seenBy squash st.origin bs) st.texts ≠ []) :
    Absorbs squash st bs (Block.absorb squash bs st) := by
  rw [Block.absorb]
  split
  next => exact .kept
  next something =>
    refine absorbs_put fun missing nothing => ?_
    exact some (fun plain => something ⟨plain, nothing⟩) missing nothing

theorem absorbs_absorb (entries : st.entries ≠ []) :
    Absorbs squash st bs (Block.absorb squash bs st) := by
  refine absorbs_absorb_of fun notPlain missing nothing => ?_
  cases origin : st.origin with
  | plain => exact notPlain origin
  | source m =>
    -- Where no block takes the entries of a source, all of them are fresh.
    rw [origin] at missing nothing
    have unseen : Block.seenBy squash (.source m) bs = [] := by
      simp [Block.seenBy, missing]
    rw [unseen, fresh_of_seen_nil] at nothing
    exact eraseDups_ne_nil (Statement.texts_ne_nil entries) nothing

theorem absorbs_settle : Absorbs squash st bs (Block.settle squash bs st) := by
  rw [Block.settle]
  split
  next => exact .kept
  next noNew =>
    exact absorbs_absorb_of fun notPlain missing => absurd ⟨notPlain, missing⟩ noNew

theorem Absorbs.proper (h : Absorbs squash st bs bs') (legible : st.Legible)
    (proper : ∀ b ∈ bs, b.Proper) : ∀ b ∈ bs', b.Proper := by
  have own : ∀ t ∈ fresh (Block.seenBy squash st.origin bs) st.texts, IsName t :=
    fun t ht => legible.isName t (mem_fresh.mp ht).1
  cases h with
  | kept => exact proper
  | made isNew _ some =>
    subst isNew
    rw [List.forall_mem_append, List.forall_mem_singleton]
    exact ⟨proper, some, legible.source, own⟩
  | joined isNew here same _ =>
    subst isNew here
    rw [List.forall_mem_append, List.forall_mem_cons] at proper ⊢
    obtain ⟨before, here, behind⟩ := proper
    refine ⟨before, ⟨?_, here.source, List.forall_mem_append.mpr ⟨here.names, own⟩⟩, behind⟩
    exact fun nothing => here.ne_nil (List.append_eq_nil_iff.mp nothing).1

theorem plainNames_cons (b : Block) (bs : List Block) :
    plainNames (b :: bs) = (if b.origin = .plain then b.names else []) ++ plainNames bs := by
  by_cases plain : b.origin = .plain <;> simp [plainNames, plain]

/-- The plain blocks get new names only. -/
theorem Absorbs.modules (h : Absorbs squash st bs bs') :
    ∃ new, (plainNames bs').Perm (plainNames bs ++ new) ∧ new.Nodup ∧
      ∀ t ∈ new, t ∉ plainNames bs := by
  have unseen : st.origin = .plain →
      ∀ t ∈ fresh (Block.seenBy squash st.origin bs) st.texts, t ∉ plainNames bs := by
    intro plain t ht
    rw [plain] at ht
    exact (mem_fresh.mp ht).2
  cases h with
  | kept => exact ⟨[], by simp⟩
  | @made new isNew _ _ =>
    by_cases plain : st.origin = .plain
    · refine ⟨new, ?_, isNew ▸ nodup_fresh _ _, isNew ▸ unseen plain⟩
      simp [plainNames, plain]
    · exact ⟨[], by simp [plainNames, plain]⟩
  | @joined front behind b new isNew here same _ =>
    by_cases plain : st.origin = .plain
    · refine ⟨new, ?_, isNew ▸ nodup_fresh _ _, isNew ▸ unseen plain⟩
      simp only [here, plainNames_append, plainNames_cons, Block.add_origin, Block.add_names,
        same.trans plain, if_true, List.append_assoc]
      exact .append_left _ (.append_left _ List.perm_append_comm)
    · exact ⟨[], by simp [here, plainNames_append, plainNames_cons, same ▸ plain]⟩

theorem Absorbs.distinct (h : Absorbs squash st bs bs') (distinct : Distinct squash bs) :
    Distinct squash bs' := by
  obtain ⟨added, plain, nodup, unseen⟩ := h.modules
  have modules : (plainNames bs').Nodup := by
    refine plain.nodup_iff.mpr (List.nodup_append.mpr ⟨distinct.modules, nodup, ?_⟩)
    rintro t ht u hu rfl
    exact unseen t hu ht
  have names := distinct.names
  have origins := distinct.origins
  cases h with
  | kept => exact distinct
  | @made new isNew missing _ =>
    refine ⟨?_, modules, fun squashing => ?_⟩
    · rw [List.forall_mem_append, List.forall_mem_singleton]
      exact ⟨names, isNew ▸ nodup_fresh _ _⟩
    · rw [Block.taker?, if_pos squashing, List.findIdx?_eq_none_iff] at missing
      rw [List.map_append, List.nodup_append]
      refine ⟨origins squashing, by simp, ?_⟩
      rintro _ hb _ ho rfl
      obtain ⟨b, hb, same⟩ := List.mem_map.mp hb
      have other := missing b hb
      simp [same, List.mem_singleton.mp ho] at other
  | @joined front behind b new isNew here same seen =>
    subst isNew here
    refine ⟨?_, modules, fun squashing => by simpa using origins squashing⟩
    rw [List.forall_mem_append, List.forall_mem_cons] at names ⊢
    obtain ⟨before, own, behind⟩ := names
    refine ⟨before, List.nodup_append.mpr ⟨own, nodup_fresh _ _, ?_⟩, behind⟩
    rintro t ht u hu rfl
    exact (mem_fresh.mp hu).2 (seen t ht)

/-- Lines are added only at the end, and only that of the statement. -/
theorem Absorbs.lines (h : Absorbs squash st bs bs') :
    ∃ added, added.Sublist [st.line] ∧
      bs'.map Block.line = bs.map Block.line ++ added := by
  cases h with
  | kept => exact ⟨[], List.nil_sublist _, by simp⟩
  | made => exact ⟨[st.line], .refl _, by simp⟩
  | joined _ here => exact ⟨[], List.nil_sublist _, by simp [here, Block.add]⟩

end

/-- What statements can do to the blocks one after the other. -/
inductive AbsorbsAll (squash : Bool) : List Statement → List Block → List Block → Prop where
  | nil {bs : List Block} : AbsorbsAll squash [] bs bs
  | cons {st : Statement} {S : List Statement} {bs bs' bs'' : List Block}
      (first : Absorbs squash st bs bs') (others : AbsorbsAll squash S bs' bs'') :
      AbsorbsAll squash (st :: S) bs bs''

section

variable {squash : Bool} {S S' : List Statement} {bs bs' bs'' : List Block}

theorem absorbsAll_foldl (entries : ∀ st ∈ S, st.entries ≠ []) :
    AbsorbsAll squash S bs (S.foldl (Block.absorb squash) bs) := by
  induction S generalizing bs with
  | nil => exact .nil
  | cons st S ih =>
    obtain ⟨first, others⟩ := List.forall_mem_cons.mp entries
    exact .cons (absorbs_absorb first) (ih others)

theorem AbsorbsAll.append (h : AbsorbsAll squash S bs bs') (h' : AbsorbsAll squash S' bs' bs'') :
    AbsorbsAll squash (S ++ S') bs bs'' := by
  induction h with
  | nil => exact h'
  | cons first _ ih => exact .cons first (ih h')

theorem AbsorbsAll.proper (h : AbsorbsAll squash S bs bs') (legible : ∀ st ∈ S, st.Legible)
    (proper : ∀ b ∈ bs, b.Proper) : ∀ b ∈ bs', b.Proper := by
  induction h with
  | nil => exact proper
  | cons first _ ih =>
    obtain ⟨own, others⟩ := List.forall_mem_cons.mp legible
    exact ih others (first.proper own proper)

theorem AbsorbsAll.distinct (h : AbsorbsAll squash S bs bs') (distinct : Distinct squash bs) :
    Distinct squash bs' := by
  induction h with
  | nil => exact distinct
  | cons first _ ih => exact ih (first.distinct distinct)

/-- Lines are added only at the end, and in the order of the statements. -/
theorem AbsorbsAll.lines (h : AbsorbsAll squash S bs bs') :
    ∃ added, added.Sublist (S.map Statement.line) ∧
      bs'.map Block.line = bs.map Block.line ++ added := by
  induction h with
  | nil => exact ⟨[], .slnil, by simp⟩
  | cons first _ ih =>
    obtain ⟨own, ownLine, before⟩ := first.lines
    obtain ⟨more, moreLines, after⟩ := ih
    exact ⟨own ++ more, ownLine.append moreLines, by rw [after, before, List.append_assoc]⟩

end

theorem distinct_nil (squash : Bool) : Distinct squash [] :=
  ⟨nofun, .nil, fun _ => .nil⟩

theorem gathered_proper {S : List Statement} (proper : ∀ st ∈ S, st.Proper) (squash : Bool) :
    ∀ b ∈ gathered squash S, b.Proper := by
  have entries : ∀ st ∈ S, st.entries ≠ [] := fun st hst => (proper st hst).ne_nil
  rw [← foldl_absorb squash entries]
  exact (absorbsAll_foldl entries).proper (fun st hst => (proper st hst).toLegible) nofun

theorem gathered_distinct {S : List Statement} (entries : ∀ st ∈ S, st.entries ≠ [])
    (squash : Bool) : Distinct squash (gathered squash S) := by
  rw [← foldl_absorb squash entries]
  exact (absorbsAll_foldl entries).distinct (distinct_nil squash)

/-! ## Runs -/

/-- The identifiers of a feed can be read. -/
theorem legible_ofFeed (feed : Feed) :
    (TokenStream.ofFeed feed).Holds fun t => t.kind = .identifier → IsIdentifier t.text :=
  TokenStream.Holds.ofFeed (fun _ _ _ _ ht => identifiers_ofLine ht) 0

/-- The statements of a feed can be read again, also where it is broken. -/
theorem proper_ofFeed (feed : Feed) : ∀ st ∈ (Script.ofFeed feed).statements, st.Proper := by
  have reads : Grammar.Reads true (.ofFeed feed) _ _ := Grammar.reads_iff.mpr ⟨rfl, rfl⟩
  exact reads.proper (legible_ofFeed feed)

/-- The groups of a fresh session that read a source can be rendered and read again. -/
theorem Session.run_readable {settings : SortSettings} {feed : Feed}
    (h : (Session.run settings {} feed).2 = none) :
    ∃ bs, (Session.run settings {} feed).1.Shows bs ∧ (∀ b ∈ bs, b.Proper) ∧
      Distinct settings.squash bs := by
  have proper := proper_ofFeed feed
  exact ⟨_, (run_shows_gathered h).2, gathered_proper proper _,
    gathered_distinct (fun st hst => (proper st hst).ne_nil) _⟩

end ImportTidy
