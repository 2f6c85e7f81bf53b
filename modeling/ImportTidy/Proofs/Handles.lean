import ImportTidy.Proofs.Block

/-!
# The handles of a session

An arena gives out a handle for each text, and a session keeps the handle in one place of
one group.  `Arena.Owned` says that certain handles are all there are, each once.  An
allocation adds the new one to them (`Arena.Owned.alloc`), and everything else that a
session does moves handles about or leaves them where they are.

So `Session.Owns` says of a session that its groups have all handles but those that are
lost.  A statement keeps it and loses nothing (`Session.Owns.perform`).  One that never
becomes complete keeps it too, and loses the handles of the group that is not made
(`Session.Owns.abandon`).  A session that lost nothing has as many names in its arena as
in its groups, and they take the bytes of their texts.
-/

namespace ImportTidy

/-! ## The handles of an arena -/

/-- No handle was released, and the handles are these, each once. -/
structure Arena.Owned (a : Arena) (hs : List Handle) : Prop where
  holds : ∃ ts, a.Holds ts
  handles : hs.Perm (List.range a.nextHandle)

namespace Arena.Owned

variable {a : Arena} {hs hs' : List Handle}

theorem empty : Owned {} [] := ⟨⟨[], holds_empty⟩, .refl _⟩

theorem wellFormed (h : a.Owned hs) : a.WellFormed := h.holds.elim fun _ holds => holds.wellFormed

theorem perm (h : a.Owned hs) (same : hs'.Perm hs) : a.Owned hs' :=
  ⟨h.holds, same.trans h.handles⟩

theorem nodup (h : a.Owned hs) : hs.Nodup := h.handles.nodup_iff.mpr List.nodup_range

theorem alloc (h : a.Owned hs) (text : String) : (a.alloc text).Owned (a.nextHandle :: hs) := by
  obtain ⟨ts, holds⟩ := h.holds
  refine ⟨⟨_, holds.alloc text⟩, ?_⟩
  rw [nextHandle_alloc, List.range_succ]
  exact (h.handles.cons _).trans (List.perm_append_singleton _ _).symm

theorem live_eq (h : a.Owned hs) : a.live = hs.length := by
  obtain ⟨ts, holds⟩ := h.holds
  rw [holds.live_eq, holds.length_eq, h.handles.length_eq, List.length_range]

/-- The arena holds the texts behind the handles. -/
theorem texts_perm (h : a.Owned hs) {ts texts : List String} (holds : a.Holds ts)
    (named : hs.map a.get? = texts.map some) : ts.Perm texts := by
  have inOrder : (List.range a.nextHandle).map a.get? = ts.map some := by
    rw [← holds.length_eq, funext holds.get?_eq]
    refine List.ext_getElem (by simp) fun i _ _ => ?_
    simp
  have live : (ts.map some).Perm (texts.map some) := by
    rw [← inOrder, ← named]
    exact (h.handles.map _).symm
  simpa [List.filterMap_map] using live.filterMap id

/-- The bytes in use are those of the texts behind the handles. -/
theorem bytesUsed_eq (h : a.Owned hs) {texts : List String}
    (named : hs.map a.get? = texts.map some) :
    a.bytesUsed = (texts.map String.utf8ByteSize).sum := by
  obtain ⟨ts, holds⟩ := h.holds
  rw [holds.bytesUsed_eq, ((h.texts_perm holds named).map _).sum_nat]

end Arena.Owned

/-! ## The handles of groups -/

def GroupKind.handles : GroupKind → List Handle
  | .plain => []
  | .source m => [m]

/-- The handles of a group, that of its source included. -/
def Group.handles (g : Group) : List Handle := g.kind.handles ++ g.names

def Groups.handles (gs : Groups) : List Handle := gs.flatMap Group.handles

@[simp] theorem Group.handles_push (g : Group) (h : Handle) :
    (g.push h).handles = g.handles ++ [h] := by
  simp [Group.handles, Group.push]

/-- The handles behind a group are the texts of its block. -/
theorem Group.Shows.handles {a : Arena} {g : Group} {b : Block} (h : g.Shows a b) :
    g.handles.map a.get? = (b.origin.texts ++ b.names).map some := by
  have origin := h.origin
  unfold Group.origin? at origin
  rw [Group.handles, List.map_append, List.map_append, h.names]
  cases kind : g.kind with
  | plain =>
    rw [kind] at origin
    simp [GroupKind.handles, ← Option.some.inj origin, Origin.texts]
  | source m =>
    simp only [kind, Option.map_eq_some_iff] at origin
    obtain ⟨t, live, found⟩ := origin
    simp [GroupKind.handles, live, ← found, Origin.texts]

namespace Groups

variable {gs : Groups} {i : Nat} {g : Group}

@[simp] theorem handles_append (gs gs' : Groups) :
    handles (gs ++ gs') = handles gs ++ handles gs' := List.flatMap_append

@[simp] theorem handles_singleton (g : Group) : handles [g] = g.handles := by
  simp [handles]

theorem Shows.handles {a : Arena} {bs : List Block} (h : Groups.Shows a gs bs) :
    gs.handles.map a.get? = (textsOfBlocks bs).map some := by
  induction h with
  | nil => rfl
  | cons shown _ ih =>
    rw [Groups.handles] at ih ⊢
    rw [List.flatMap_cons, List.map_append, ih, shown.handles, textsOfBlocks_cons]
    exact List.map_append.symm

/-- A group has its handles apart from those of the others. -/
theorem handles_set (at_ : gs[i]? = some g) :
    ∃ others, gs.handles.Perm (g.handles ++ others) ∧
      ∀ g', (handles (gs.set i g')).Perm (g'.handles ++ others) := by
  obtain ⟨inside, rfl⟩ := List.getElem?_eq_some_iff.mp at_
  refine ⟨handles (gs.take i) ++ handles (gs.drop (i + 1)), ?_⟩
  have each : ∀ g', (handles (gs.set i g')).Perm
      (g'.handles ++ (handles (gs.take i) ++ handles (gs.drop (i + 1)))) := by
    intro g'
    rw [List.set_eq_take_cons_drop _ inside, handles_append]
    exact List.perm_append_comm_assoc ..
  have itself := each gs[i]
  rw [List.set_getElem_self] at itself
  exact ⟨itself, each⟩

theorem handles_pushAt (inside : i < gs.length) (h : Handle) :
    (handles (gs.pushAt i h)).Perm (h :: gs.handles) := by
  have at_ : gs[i]? = some gs[i] := List.getElem?_eq_getElem inside
  obtain ⟨others, before, after⟩ := handles_set at_
  have replaced : gs.pushAt i h = gs.set i (gs[i].push h) := by
    rw [Groups.pushAt, List.modify_eq_set_getElem?, at_]
    rfl
  have pushed := after (gs[i].push h)
  rw [Group.handles_push, List.append_assoc] at pushed
  rw [replaced]
  exact (pushed.trans List.perm_middle).trans (before.symm.cons h)

end Groups

/-! ## Plain statements -/

/-- The groups have all handles of the session but those that are lost, each once. -/
def Session.Owns (s : Session) (lost : List Handle) : Prop :=
  s.arena.Owned (s.groups.handles ++ lost)

namespace Session

variable {s : Session} {lost : List Handle} {squash : Bool} {place : Option Nat}

/-- A group stands at the place, if there is one. -/
def Places (s : Session) (place : Option Nat) : Prop := ∀ i, place = some i → i < s.groups.length

theorem places_none (s : Session) : s.Places none := fun _ h => nomatch h

theorem places_firstPlain? (s : Session) (squash : Bool) :
    s.Places (if squash then s.groups.firstPlain? else none) := by
  intro i found
  cases squash with
  | false => cases found
  | true => exact (List.findIdx?_eq_some_iff_getElem.mp found).choose

/-- A new handle goes to a group, and every other one stays where it is. -/
theorem Owns.push (h : s.Owns lost) {gs : Groups} (same : gs.handles = s.groups.handles) {i : Nat}
    (inside : i < gs.length) (text : String) :
    Session.Owns ⟨s.arena.alloc text, gs.pushAt i s.arena.nextHandle⟩ lost := by
  have more := Groups.handles_pushAt inside s.arena.nextHandle
  rw [same] at more
  exact (Arena.Owned.alloc h text).perm (more.append_right lost)

theorem places_pushAt {a : Arena} {gs : Groups} {i : Nat} (inside : i < gs.length) (h : Handle) :
    Places ⟨a, gs.pushAt i h⟩ (some i) := by
  rintro _ ⟨⟩
  simpa [Groups.pushAt] using inside

/-- A module of a plain statement gets a handle in a group that is there by then, or none. -/
theorem Owns.addModule (h : s.Owns lost) (squash : Bool) (line : Nat) (inside : s.Places place)
    (text : String) :
    (addModule squash line s place text).1.Owns lost ∧
      (addModule squash line s place text).1.Places (addModule squash line s place text).2 := by
  rw [Session.addModule]
  split
  · exact ⟨h, inside⟩
  · cases found : place.or (if squash then s.groups.firstPlain? else none) with
    | none =>
      let gs : Groups := s.groups ++ [{ kind := .plain, line := line }]
      have same : gs.handles = s.groups.handles := by
        rw [Groups.handles_append, Groups.handles_singleton]
        exact List.append_nil _
      have last : s.groups.length < gs.length := by simp [gs]
      exact ⟨h.push same last text, places_pushAt last _⟩
    | some i =>
      have inside' : i < s.groups.length := by
        rcases Option.or_eq_some_iff.mp found with at_ | ⟨-, at_⟩
        · exact inside i at_
        · exact places_firstPlain? s squash i at_
      exact ⟨h.push rfl inside' text, places_pushAt inside' _⟩

theorem Owns.addModules (h : s.Owns lost) (squash : Bool) (line : Nat) (inside : s.Places place)
    (es : List Entry) : (s.addModules squash line place es).Owns lost := by
  induction es generalizing s place with
  | nil => exact h
  | cons e es ih =>
    obtain ⟨owns, inside'⟩ := h.addModule squash line inside e.text
    exact ih owns inside'

/-! ## Statements with a source -/

/-- The names of a source get a handle each, in the group that takes them. -/
theorem owned_collect {a : Arena} {g : Group} {others : List Handle}
    (h : a.Owned (g.handles ++ others)) (es : List Entry) :
    (collect a g es).1.Owned ((collect a g es).2.handles ++ others) := by
  induction es generalizing a g with
  | nil => exact h
  | cons e es ih =>
    rw [collect]
    split
    · exact ih h
    · refine ih ((h.alloc e.text).perm ?_)
      rw [Group.handles_push, List.append_assoc]
      exact List.perm_middle

theorem Owns.merge (h : s.Owns lost) {i : Nat} {g : Group} (at_ : s.groups[i]? = some g)
    (es : List Entry) : (s.merge i g es).Owns lost := by
  obtain ⟨others, before, after⟩ := Groups.handles_set at_
  have apart : (g.handles ++ (others ++ lost)).Perm (s.groups.handles ++ lost) := by
    simpa using (before.append_right lost).symm
  have filled := owned_collect (Arena.Owned.perm h apart) es
  refine filled.perm ?_
  rw [← List.append_assoc]
  exact (after _).append_right lost

/-- The group that a source would get has all the new handles. -/
theorem Owns.found (h : s.Owns lost) (source : String) (line : Nat) (es : List Entry) :
    (s.found source line es).1.Owned
      ((s.found source line es).2.handles ++ (s.groups.handles ++ lost)) :=
  owned_collect (g := { kind := .source s.arena.nextHandle, line := line })
    (Arena.Owned.alloc h source) es

theorem getElem?_of_target? {m : String} {i : Nat} {g : Group}
    (h : s.target? squash m = some (i, g)) : s.groups[i]? = some g := by
  cases squash with
  | false => cases h
  | true =>
    simp only [target?, if_true, Option.bind_eq_bind, Option.pure_def, Option.bind_eq_some_iff,
      Option.some.injEq, Prod.mk.injEq] at h
    obtain ⟨_, -, _, at_, rfl, rfl⟩ := h
    exact at_

/-- A statement gives every new handle to a group. -/
theorem Owns.perform (h : s.Owns lost) (squash : Bool) (st : Statement) :
    (s.perform squash st).Owns lost := by
  rw [Session.perform]
  split
  next => exact h.addModules squash st.line s.places_none st.entries
  next m _ =>
    split
    next i g target => exact h.merge (getElem?_of_target? target) st.entries
    next =>
      refine Arena.Owned.perm (h.found m st.line st.entries) ?_
      rw [Groups.handles_append, Groups.handles_singleton, List.append_assoc]
      exact List.perm_append_comm_assoc ..

/-- What was settled of a statement can lose the handles of a group that is not made. -/
theorem Owns.abandon (h : s.Owns lost) (squash : Bool) (st : Statement) :
    ∃ lost', (s.abandon squash st).Owns lost' := by
  rw [Session.abandon]
  split
  next => exact ⟨lost, h.addModules squash st.line s.places_none st.entries⟩
  next m _ =>
    split
    next i g target => exact ⟨lost, h.merge (getElem?_of_target? target) st.entries⟩
    next =>
      have new := h.found m st.line st.entries
      exact ⟨_, new.perm (List.perm_append_comm_assoc ..)⟩

end Session

end ImportTidy
