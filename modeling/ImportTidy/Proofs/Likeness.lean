import ImportTidy.Proofs.Gathering
import ImportTidy.Proofs.NaturalOrder

/-!
# What the output depends on

The output of a run depends on which names are imported.  In what order a source gives them,
how often, and on which lines, does not matter.

Two blocks are *like* each other if they have one origin and the same names in any order
(`Block.Like`).  Like blocks are rendered alike, since the natural order leaves one way to have
names in order.  Two lists of statements that import the same (`SameImports`) gather like
blocks (`gathered_like`).  Which texts were seen before is then the same for both, though the
first of two equal texts may be another one.
-/

namespace ImportTidy

open List (Forall₂)

/-! ## Like blocks -/

/-- The blocks have the same names in any order. -/
structure Block.Like (b b' : Block) : Prop where
  /-- They import from the same origin. -/
  origin : b.origin = b'.origin
  /-- A name stands as often in one as in the other. -/
  names : b.names.Perm b'.names

theorem Block.Like.symm {b b' : Block} (h : b.Like b') : b'.Like b :=
  ⟨h.origin.symm, h.names.symm⟩

theorem Block.Like.render {b b' : Block} (h : b.Like b') (rule : WrapRule) :
    b.render rule = b'.render rule := by
  rw [Block.render, Block.render, h.origin, NaturalOrder.sort_congr h.names]

/-- Like blocks are rendered alike. -/
theorem renderBlocks_like {bs bs' : List Block} (h : Forall₂ Block.Like bs bs') (rule : WrapRule) :
    renderBlocks rule bs = renderBlocks rule bs' := by
  have same : (bs.map fun b => b.render rule ++ "\n") = bs'.map fun b => b.render rule ++ "\n" := by
    induction h with
    | nil => rfl
    | cons first _ ih => rw [List.map_cons, List.map_cons, first.render, ih]
  rw [renderBlocks, renderBlocks, same]

/-- Like blocks have the same origins. -/
theorem map_origin_like {bs bs' : List Block} (h : Forall₂ Block.Like bs bs') :
    bs.map Block.origin = bs'.map Block.origin := by
  induction h with
  | nil => rfl
  | cons first _ ih => rw [List.map_cons, List.map_cons, first.origin, ih]

/-- The plain ones of like blocks have the same names. -/
theorem plainNames_like {bs bs' : List Block} (h : Forall₂ Block.Like bs bs') :
    (plainNames bs).Perm (plainNames bs') := by
  induction h with
  | nil => exact .refl _
  | @cons b b' bs bs' first _ ih =>
    rw [plainNames, plainNames] at ih
    by_cases plain : b'.origin = .plain
    · simpa [plainNames, first.origin, plain] using first.names.append ih
    · simpa [plainNames, first.origin, plain] using ih

/-! ## Texts without repetition -/

/-- Only which texts there are matters, and which were seen. -/
theorem fresh_perm {seen seen' texts texts' : List String} (same : ∀ t, t ∈ texts ↔ t ∈ texts')
    (sameSeen : ∀ t, t ∈ seen ↔ t ∈ seen') : (fresh seen texts).Perm (fresh seen' texts') := by
  rw [List.perm_ext_iff_of_nodup (nodup_fresh _ _) (nodup_fresh _ _)]
  intro t
  rw [mem_fresh, mem_fresh, same, sameSeen]

theorem eraseDups_perm {texts texts' : List String} (same : ∀ t, t ∈ texts ↔ t ∈ texts') :
    texts.eraseDups.Perm texts'.eraseDups := by
  rw [← fresh_of_seen_nil, ← fresh_of_seen_nil]
  exact fresh_perm same fun _ => Iff.rfl

/-! ## Statements that import the same -/

/-- The statements have one origin and the same texts, in any order and any number. -/
structure Statement.Like (st st' : Statement) : Prop where
  /-- They import from the same origin. -/
  origin : st.origin = st'.origin
  /-- A text is in one if it is in the other. -/
  texts : ∀ t, t ∈ st.texts ↔ t ∈ st'.texts

/-- The statements import the same.  Under squashing their origins come first in the same order
and have the same texts.  Otherwise the statements are like each other one by one. -/
def SameImports (squash : Bool) (S S' : List Statement) : Prop :=
  match squash with
  | true => originsOf S = originsOf S' ∧ ∀ o t, t ∈ textsOf o S ↔ t ∈ textsOf o S'
  | false => Forall₂ Statement.Like S S'

theorem squashed_like {S S' : List Statement} (origins : originsOf S = originsOf S')
    (texts : ∀ o t, t ∈ textsOf o S ↔ t ∈ textsOf o S') :
    Forall₂ Block.Like (squashed S) (squashed S') := by
  rw [squashed, squashed, origins, List.forall₂_map_left_iff, List.forall₂_map_right_iff,
    List.forall₂_same]
  exact fun o _ => ⟨rfl, eraseDups_perm (texts o)⟩

theorem ownBlock_like {names names' : List String} (perm : names.Perm names') (line line' : Nat) :
    Forall₂ Block.Like (if names = [] then [] else [⟨.plain, names, line⟩])
      (if names' = [] then [] else [⟨.plain, names', line'⟩]) := by
  by_cases nothing : names = []
  · have nothing' : names' = [] := List.perm_nil.mp (nothing ▸ perm.symm)
    rw [if_pos nothing, if_pos nothing']
    exact .nil
  · have some : names' ≠ [] := fun nothing' => nothing (List.perm_nil.mp (nothing' ▸ perm))
    rw [if_neg nothing, if_neg some]
    exact .cons ⟨rfl, perm⟩ .nil

theorem separated_like {S S' : List Statement} (h : Forall₂ Statement.Like S S')
    {seen seen' : List String} (sameSeen : ∀ t, t ∈ seen ↔ t ∈ seen') :
    Forall₂ Block.Like (separated seen S) (separated seen' S') := by
  induction h generalizing seen seen' with
  | nil => exact .nil
  | @cons st st' S S' first _ ih =>
    rw [separated, separated, ← first.origin]
    cases st.origin with
    | source m => exact .cons ⟨rfl, eraseDups_perm first.texts⟩ (ih sameSeen)
    | plain =>
      have grown : ∀ t, t ∈ seen ++ st.texts ↔ t ∈ seen' ++ st'.texts := fun t => by
        rw [List.mem_append, List.mem_append, sameSeen, first.texts]
      exact List.rel_append (ownBlock_like (fresh_perm first.texts sameSeen) _ _) (ih grown)

/-- Statements that import the same gather like blocks. -/
theorem gathered_like {squash : Bool} {S S' : List Statement} (same : SameImports squash S S') :
    Forall₂ Block.Like (gathered squash S) (gathered squash S') := by
  cases squash with
  | true => exact squashed_like same.1 same.2
  | false => exact separated_like same fun _ => Iff.rfl

/-! ## Runs -/

/-- The output depends only on what is imported.  Where a source can be read, every other one whose
statements import the same can be read too, and both give the same text. -/
theorem reorganize_congr {settings : SortSettings} {source source' : String}
    {S S' : List Statement}
    (reads : Grammar.Reads true (.ofFeed (.ofText settings.maxLineLength source)) S none)
    (reads' : Grammar.Reads true (.ofFeed (.ofText settings.maxLineLength source')) S' none)
    (same : SameImports settings.squash S S') :
    ∃ out, reorganize settings source = .ok out ∧ reorganize settings source' = .ok out :=
  ⟨_, reorganize_eq_ok_iff_reads.mpr ⟨S, reads, rfl⟩,
    reorganize_eq_ok_iff_reads.mpr
      ⟨S', reads', (renderBlocks_like (gathered_like same) settings.wrap).symm⟩⟩

/-- The names of one module, given in two statements or in one. -/
theorem reorganize_congr_of_split :
    ∃ out, reorganize {} "from m import b, a\nimport c\nfrom m import b\n" = .ok out ∧
      reorganize {} "from m import a, b\nimport c, c\n" = .ok out := by
  let S : List Statement :=
    [⟨.source "m", 1, [{ name := "b" }, { name := "a" }]⟩, ⟨.plain, 2, [{ name := "c" }]⟩,
      ⟨.source "m", 3, [{ name := "b" }]⟩]
  let S' : List Statement :=
    [⟨.source "m", 1, [{ name := "a" }, { name := "b" }]⟩,
      ⟨.plain, 2, [{ name := "c" }, { name := "c" }]⟩]
  have reads : Grammar.Reads true
      (.ofFeed (.ofText 512 "from m import b, a\nimport c\nfrom m import b\n")) S none :=
    Grammar.reads_iff.mpr (by decide +kernel)
  have reads' : Grammar.Reads true
      (.ofFeed (.ofText 512 "from m import a, b\nimport c, c\n")) S' none :=
    Grammar.reads_iff.mpr (by decide +kernel)
  have same : ∀ o t, t ∈ textsOf o S ↔ t ∈ textsOf o S' := by
    intro o t
    rw [mem_textsOf, mem_textsOf]
    simp only [S, S', Statement.texts, Entry.text, List.mem_cons, List.not_mem_nil, or_false,
      exists_eq_or_imp, exists_eq_left, List.map_cons, List.map_nil]
    tauto
  exact reorganize_congr reads reads' ⟨by decide +kernel, same⟩

end ImportTidy
