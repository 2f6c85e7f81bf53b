import Mathlib.Data.List.Forall2
import ImportTidy.Session
import ImportTidy.Proofs.Arena

/-!
# The blocks that a session shows

The groups of a session hold handles.  A *block* is a group with its texts in
place of handles: what it imports from, its names in order of arrival, and its
line.  `Group.Shows` says that a group stands for a block, so every handle of the
group is live.  `Session.Shows` says it of all groups in order.

What a session does is stated on its blocks.  An allocation changes no block
(`Group.Shows.alloc`), a new handle at the end of a group adds one name
(`Group.Shows.push`), and the lookups of a session are questions about its blocks.
A session renders what its blocks render (`Session.Shows.render`).
-/

namespace ImportTidy

open List (Forall₂)

/-- What stands in one of two related lists has a partner in the other. -/
theorem exists_partner {α β : Type} {R : α → β → Prop} {xs : List α} {ys : List β}
    (h : Forall₂ R xs ys) {x : α} (hx : x ∈ xs) : ∃ y ∈ ys, R x y := by
  induction h with
  | nil => cases hx
  | cons first _ ih =>
    rcases List.mem_cons.mp hx with rfl | hx
    · exact ⟨_, List.mem_cons_self, first⟩
    · obtain ⟨y, hy, related⟩ := ih hx
      exact ⟨y, List.mem_cons_of_mem _ hy, related⟩

/-- The module behind an origin. -/
def Origin.source? : Origin → Option String
  | .plain => none
  | .source m => some m

/-- The text of a source. -/
def Origin.texts : Origin → List String
  | .plain => []
  | .source m => [m]

/-- A group with its texts. -/
structure Block where
  /-- What it imports from. -/
  origin : Origin
  /-- Its names in order of arrival. -/
  names : List String
  /-- The line of the statement that made it. -/
  line : Nat
deriving DecidableEq, Repr

/-- The block with more names. -/
def Block.add (b : Block) (names : List String) : Block := { b with names := b.names ++ names }

/-- The texts of blocks, those of their sources included. -/
def textsOfBlocks (bs : List Block) : List String := bs.flatMap fun b => b.origin.texts ++ b.names

@[simp] theorem textsOfBlocks_cons (b : Block) (bs : List Block) :
    textsOfBlocks (b :: bs) = b.origin.texts ++ b.names ++ textsOfBlocks bs := rfl

/-- The statement of a block. -/
def Block.render (rule : WrapRule) (b : Block) : String :=
  Layout.render rule (Session.leadOf b.origin.source?) (NaturalOrder.sort b.names)

/-- What a group imports from, unless its source was released. -/
def Group.origin? (a : Arena) (g : Group) : Option Origin :=
  match g.kind with
  | .plain => some .plain
  | .source m => (a.get? m).map .source

/-- The group stands for the block, and all its handles are live. -/
structure Group.Shows (a : Arena) (g : Group) (b : Block) : Prop where
  /-- The group imports from the origin of the block. -/
  origin : g.origin? a = some b.origin
  /-- The handles have the names of the block. -/
  names : g.names.map a.get? = b.names.map some
  /-- The lines agree. -/
  line : g.line = b.line

/-- The groups stand for the blocks, in order. -/
abbrev Groups.Shows (a : Arena) (gs : Groups) (bs : List Block) : Prop :=
  Forall₂ (Group.Shows a) gs bs

/-- The groups of the session stand for the blocks, in order. -/
def Session.Shows (s : Session) (bs : List Block) : Prop := Groups.Shows s.arena s.groups bs

namespace Group.Shows

variable {a : Arena} {g : Group} {b : Block}

theorem isPlain_iff (h : g.Shows a b) : g.isPlain = true ↔ b.origin = .plain := by
  have origin := h.origin
  unfold Group.origin? at origin
  cases kind : g.kind with
  | plain =>
    rw [kind] at origin
    simp [Group.isPlain, kind, ← Option.some.inj origin]
  | source m =>
    simp only [kind, Option.map_eq_some_iff] at origin
    obtain ⟨t, -, found⟩ := origin
    simp [Group.isPlain, kind, ← found]

theorem source?_eq (h : g.Shows a b) : g.source? a = b.origin.source? := by
  have origin := h.origin
  unfold Group.origin? at origin
  cases kind : g.kind with
  | plain =>
    rw [kind] at origin
    simp [Group.source?, kind, ← Option.some.inj origin, Origin.source?]
  | source m =>
    simp only [kind, Option.map_eq_some_iff] at origin
    obtain ⟨t, live, found⟩ := origin
    simp [Group.source?, kind, live, ← found, Origin.source?]

theorem texts_eq (h : g.Shows a b) : g.texts a = b.names := by
  have resolved : g.texts a = (g.names.map a.get?).filterMap id := by
    simp [Group.texts, List.filterMap_map]
  rw [resolved, h.names]
  simp [List.filterMap_map]

theorem contains_iff (h : g.Shows a b) (text : String) :
    g.contains a text = true ↔ text ∈ b.names := by
  rw [Group.contains_iff, h.texts_eq]

/-- The block is still shown while live handles keep their texts. -/
theorem keeps {a' : Arena} (h : g.Shows a b) (wf : a.WellFormed) (keeps : a.Keeps a') :
    g.Shows a' b := by
  refine ⟨?_, keeps.named wf h.names, h.line⟩
  have origin := h.origin
  unfold Group.origin? at origin ⊢
  cases kind : g.kind with
  | plain => simpa only [kind] using origin
  | source m =>
    simp only [kind, Option.map_eq_some_iff] at origin ⊢
    obtain ⟨t, live, found⟩ := origin
    exact ⟨t, (keeps wf).2 m t live, found⟩

/-- An allocation changes no block. -/
theorem alloc (h : g.Shows a b) (wf : a.WellFormed) (text : String) : g.Shows (a.alloc text) b :=
  h.keeps wf (.alloc a text)

/-- The handle of a new text at the end of a group adds that text to the block. -/
theorem push (h : g.Shows a b) (wf : a.WellFormed) (text : String) :
    (g.push a.nextHandle).Shows (a.alloc text) (b.add [text]) := by
  have kept := h.alloc wf text
  refine ⟨kept.origin, ?_, kept.line⟩
  simp only [Group.push, Block.add, List.map_append, kept.names]
  simp [Arena.get?_alloc_nextHandle wf]

end Group.Shows

/-! ## Lookups -/

/-- The names of all plain blocks. -/
def plainNames (bs : List Block) : List String :=
  (bs.filter (·.origin = .plain)).flatMap Block.names

theorem mem_plainNames {bs : List Block} {text : String} :
    text ∈ plainNames bs ↔ ∃ b ∈ bs, b.origin = .plain ∧ text ∈ b.names := by
  simp [plainNames, and_assoc]

namespace Groups.Shows

variable {a : Arena} {gs : Groups} {bs : List Block}

/-- An allocation changes no blocks. -/
theorem alloc (h : Groups.Shows a gs bs) (wf : a.WellFormed) (text : String) :
    Groups.Shows (a.alloc text) gs bs :=
  h.imp fun _ _ shown => shown.alloc wf text

theorem plainContains_iff (h : Groups.Shows a gs bs) (text : String) :
    gs.plainContains a text = true ↔ text ∈ plainNames bs := by
  rw [mem_plainNames]
  induction h with
  | nil => simp [Groups.plainContains]
  | cons shown _ ih =>
    simp only [Groups.plainContains, List.any_cons, Bool.or_eq_true, Bool.and_eq_true,
      List.mem_cons, exists_eq_or_imp] at ih ⊢
    rw [shown.isPlain_iff, shown.contains_iff, ih]

theorem firstPlain?_eq (h : Groups.Shows a gs bs) :
    gs.firstPlain? = bs.findIdx? (·.origin = .plain) := by
  induction h with
  | nil => rfl
  | @cons g b gs bs shown _ ih =>
    have same : g.isPlain = decide (b.origin = .plain) := by
      rw [Bool.eq_iff_iff, shown.isPlain_iff, decide_eq_true_iff]
    simp only [Groups.firstPlain?, List.findIdx?_cons, same] at ih ⊢
    rw [ih]

theorem findSource?_eq (h : Groups.Shows a gs bs) (source : String) :
    gs.findSource? a source = bs.findIdx? (·.origin = .source source) := by
  induction h with
  | nil => rfl
  | @cons g b gs bs shown _ ih =>
    have same : (g.source? a == some source) = decide (b.origin = .source source) := by
      rw [Bool.eq_iff_iff, shown.source?_eq, decide_eq_true_iff]
      cases b.origin <;> simp [Origin.source?]
    simp only [Groups.findSource?, List.findIdx?_cons, same] at ih ⊢
    rw [ih]

theorem lines_eq (h : Groups.Shows a gs bs) : gs.map Group.line = bs.map Block.line := by
  induction h with
  | nil => rfl
  | cons shown _ ih => rw [List.map_cons, List.map_cons, shown.line, ih]

end Groups.Shows

/-! ## Rendering -/

theorem Group.Shows.render {a : Arena} {g : Group} {b : Block} (h : g.Shows a b)
    (rule : WrapRule) : Session.renderGroup rule a g = b.render rule := by
  simp only [Session.renderGroup, Session.sortedNames, Block.render, h.source?_eq, h.texts_eq]

theorem Groups.Shows.render {a : Arena} {gs : Groups} {bs : List Block}
    (h : Groups.Shows a gs bs) (rule : WrapRule) :
    (gs.map fun g => Session.renderGroup rule a g ++ "\n") =
      bs.map fun b => b.render rule ++ "\n" := by
  induction h with
  | nil => rfl
  | cons first _ ih => rw [List.map_cons, List.map_cons, first.render, ih]

/-- The statements of all blocks, each with a newline. -/
def renderBlocks (rule : WrapRule) (bs : List Block) : String :=
  String.join (bs.map fun b => b.render rule ++ "\n")

/-- A session renders what its blocks render. -/
theorem Session.Shows.render {s : Session} {bs : List Block} (h : s.Shows bs) (rule : WrapRule) :
    s.render rule = renderBlocks rule bs := by
  rw [Session.render, renderBlocks, Groups.Shows.render h]

end ImportTidy
