import AccessControl.Group
import Mathlib.Data.List.Nodup
import Mathlib.Logic.Relation

/-! A group is made with its path, the ids from its root down to it. Of groups made one below another
the paths tell which is above which, although that is asked of the texts alone: no id holds the mark
that is put before each of them, so one path goes on from another only where the groups do. -/

namespace AccessControl.Group

def pathOf (ids : List String) : String :=
  String.join (ids.map ("/" ++ ·))

/-- Groups that were made as roots, or below groups that had been made before; the last one first. -/
inductive Forest : List Group → Prop
  | empty : Forest []
  | root {groups : List Group} (id name organization : String) : Forest groups →
      Forest (Group.root id name organization :: groups)
  | child {groups : List Group} {parent group : Group} (id name : String) : Forest groups →
      parent ∈ groups → parent.childOf id name = .ok group → Forest (group :: groups)

def ParentIn (groups : List Group) (parent g : Group) : Prop :=
  parent ∈ groups ∧ g ∈ groups ∧ g.parent = some parent.id

inductive Line (groups : List Group) : List Group → Group → Prop
  | root {g : Group} : g ∈ groups → g.parent = none → Line groups [] g
  | child {line : List Group} {p g : Group} : Line groups line p → g ∈ groups →
      g.parent = some p.id → Line groups (line ++ [p]) g

structure Follows (line : List Group) (g : Group) : Prop where
  depth : g.depth = line.length
  bounded : g.depth ≤ deepest
  organization : ∀ top, (line ++ [g]).head? = some top → g.organization = top.organization
  path : g.path = pathOf ((line ++ [g]).map (·.id))

variable {groups line line' : List Group} {g p a b x : Group} {id name : String}

lemma toList_pathOf_cons (id : String) (ids : List String) :
    (pathOf (id :: ids)).toList = '/' :: (id.toList ++ (pathOf ids).toList) := by
  simp [pathOf]

lemma pathOf_append (ids : List String) (id : String) :
    pathOf (ids ++ [id]) = pathOf ids ++ "/" ++ id := by
  simp [pathOf, String.append_assoc]

lemma takeWhile_id {id : String} (hid : '/' ∉ id.toList) {rest : List Char}
    (hrest : rest = [] ∨ ∃ more, rest = '/' :: more) :
    (id.toList ++ rest).takeWhile (· != '/') = id.toList := by
  have hplain : ∀ c ∈ id.toList, (c != '/') = true := fun c hc =>
    bne_iff_ne.mpr fun he => hid (he ▸ hc)
  rw [List.takeWhile_append_of_pos hplain]
  rcases hrest with rfl | ⟨more, rfl⟩ <;> simp

lemma pathOf_cases (ids : List String) :
    (pathOf ids).toList = [] ∨ ∃ more, (pathOf ids).toList = '/' :: more := by
  cases ids with
  | nil => exact Or.inl rfl
  | cons id ids => exact Or.inr ⟨_, toList_pathOf_cons id ids⟩

lemma pathOf_prefix_iff {ids ids' : List String} (h : ∀ id ∈ ids, '/' ∉ id.toList)
    (h' : ∀ id ∈ ids', '/' ∉ id.toList) :
    (pathOf ids' = pathOf ids ∨ (pathOf ids ++ "/").toList <+: (pathOf ids').toList) ↔
      ids <+: ids' := by
  rw [← String.toList_inj, String.toList_append]
  induction ids generalizing ids' with
  | nil =>
    simp only [List.nil_prefix, iff_true]
    rcases pathOf_cases ids' with hnil | ⟨more, hmore⟩
    · exact Or.inl hnil
    · exact Or.inr ⟨more, hmore.symm⟩
  | cons id ids ih =>
    cases ids' with
    | nil =>
      rw [toList_pathOf_cons]
      simp [pathOf]
    | cons id' ids' =>
      obtain ⟨hid, hids⟩ := List.forall_mem_cons.mp h
      obtain ⟨hid', hids'⟩ := List.forall_mem_cons.mp h'
      rw [toList_pathOf_cons, toList_pathOf_cons, List.cons_prefix_cons, ← ih hids hids',
        List.cons_append, List.cons_inj_right, List.cons_prefix_cons, List.append_assoc]
      simp only [true_and]
      constructor
      · intro hpath
        have hsame : id.toList = id'.toList := by
          rcases hpath with he | ⟨more, he⟩
          · have hids := congrArg (List.takeWhile (· != '/')) he
            rw [takeWhile_id hid' (pathOf_cases ids'), takeWhile_id hid (pathOf_cases ids)] at hids
            exact hids.symm
          · have hids := congrArg (List.takeWhile (· != '/')) he
            rw [List.append_assoc, takeWhile_id hid' (pathOf_cases ids'), takeWhile_id hid] at hids
            · exact hids
            · rcases pathOf_cases ids with hnil | ⟨rest, hrest⟩
              · exact Or.inr ⟨more, by rw [hnil]; rfl⟩
              · exact Or.inr ⟨_, by rw [hrest]; rfl⟩
        refine ⟨String.toList_inj.mp hsame, ?_⟩
        rw [hsame] at hpath
        simpa using hpath
      · rintro ⟨rfl, hpath⟩
        simpa using hpath

lemma Line.mem (h : Line groups line g) : g ∈ groups := by
  cases h <;> assumption

lemma Line.mono (h : Line groups line g) (x : Group) : Line (x :: groups) line g := by
  induction h with
  | root hg hp => exact .root (List.mem_cons_of_mem _ hg) hp
  | child _ hg hp ih => exact .child ih (List.mem_cons_of_mem _ hg) hp

lemma Forest.exists_line (h : Forest groups) (hg : g ∈ groups) :
    ∃ line, Line groups line g ∧ Follows line g := by
  induction h generalizing g with
  | empty => cases hg
  | @root groups id name organization h ih =>
    rcases List.mem_cons.mp hg with rfl | hg
    · refine ⟨[], .root List.mem_cons_self rfl, rfl, Nat.zero_le _, ?_, ?_⟩
      · rintro top ⟨⟩
        rfl
      · simp [Group.root, pathOf]
    · obtain ⟨line, hline, hfollows⟩ := ih hg
      exact ⟨line, hline.mono _, hfollows⟩
  | @child groups parent group id name h hparent hmade ih =>
    rcases List.mem_cons.mp hg with rfl | hg
    · obtain ⟨line, hline, hfollows⟩ := ih hparent
      rw [childOf] at hmade
      split at hmade
      · cases hmade
      · rename_i hroom
        obtain rfl := Except.ok.inj hmade
        refine ⟨line ++ [parent], .child (hline.mono _) List.mem_cons_self rfl, ?_, ?_, ?_, ?_⟩
        · simp [hfollows.depth]
        · exact Nat.le_of_not_lt hroom
        · intro top htop
          refine hfollows.organization top ?_
          simpa using htop
        · simp only [List.map_append, List.map_cons, List.map_nil, pathOf_append]
          rw [hfollows.path, List.map_append, List.map_cons, List.map_nil, pathOf_append]
    · obtain ⟨line, hline, hfollows⟩ := ih hg
      exact ⟨line, hline.mono _, hfollows⟩

lemma Line.of_mem (h : Line groups line g) (ha : a ∈ line) :
    ∃ above below, line = above ++ a :: below ∧ Line groups above a := by
  induction h with
  | root => cases ha
  | @child line p g hline _ _ ih =>
    rcases List.mem_append.mp ha with ha | ha
    · obtain ⟨above, below, rfl, habove⟩ := ih ha
      exact ⟨above, below ++ [p], by simp, habove⟩
    · obtain rfl := List.mem_singleton.mp ha
      exact ⟨line, [], rfl, hline⟩

lemma Line.stored (h : Line groups line g) (hx : x ∈ line ++ [g]) : x ∈ groups := by
  rcases List.mem_append.mp hx with hx | hx
  · obtain ⟨_, _, -, hline⟩ := h.of_mem hx
    exact hline.mem
  · exact List.mem_singleton.mp hx ▸ h.mem

lemma Line.transGen (h : Line groups line g) (ha : a ∈ line) :
    Relation.TransGen (ParentIn groups) a g := by
  induction h with
  | root => cases ha
  | @child line p g hline hg hp ih =>
    have hlink : ParentIn groups p g := ⟨hline.mem, hg, hp⟩
    rcases List.mem_append.mp ha with ha | ha
    · exact (ih ha).tail hlink
    · obtain rfl := List.mem_singleton.mp ha
      exact .single hlink

lemma Line.validate (h : Line groups line g) (hf : Follows line g) : g.validate = .ok () := by
  rw [Group.validate, if_neg (Nat.not_lt.mpr hf.bounded), if_neg]
  cases h with
  | root _ hp => simp [hf.depth, hp]
  | child _ _ hp => simp [hf.depth, hp]

section Distinct

variable (hids : (groups.map (·.id)).Nodup)
include hids

lemma eq_of_id (ha : a ∈ groups) (hb : b ∈ groups) (h : a.id = b.id) : a = b :=
  List.inj_on_of_nodup_map hids ha hb h

lemma Line.unique (h : Line groups line g) (h' : Line groups line' g) : line = line' := by
  induction h generalizing line' with
  | root _ hp =>
    cases h' with
    | root => rfl
    | child _ _ hp' => cases hp.symm.trans hp'
  | child hline _ hp ih =>
    cases h' with
    | root _ hp' => cases hp.symm.trans hp'
    | child hline' _ hp' =>
      obtain rfl := eq_of_id hids hline.mem hline'.mem (Option.some.inj (hp.symm.trans hp'))
      rw [ih hline']

lemma Line.mem_iff (h : Line groups line g) :
    a ∈ line ↔ Relation.TransGen (ParentIn groups) a g := by
  refine ⟨h.transGen, fun hup => ?_⟩
  induction hup generalizing line with
  | single hlink =>
    obtain ⟨ha, -, hp⟩ := hlink
    cases h with
    | root _ hp' => cases hp.symm.trans hp'
    | child hline _ hp' =>
      obtain rfl := eq_of_id hids ha hline.mem (Option.some.inj (hp.symm.trans hp'))
      exact List.mem_append_right _ (List.mem_singleton_self _)
  | tail _ hlink ih =>
    obtain ⟨hc, -, hp⟩ := hlink
    cases h with
    | root _ hp' => cases hp.symm.trans hp'
    | child hline _ hp' =>
      obtain rfl := eq_of_id hids hc hline.mem (Option.some.inj (hp.symm.trans hp'))
      exact List.mem_append_left _ (ih hline)

lemma Line.nodup (h : Line groups line g) : line.Nodup := by
  induction h with
  | root => exact List.nodup_nil
  | @child line p g hline _ _ ih =>
    refine List.nodup_append.mpr ⟨ih, List.nodup_singleton p, fun a ha b hb => ?_⟩
    rintro rfl
    obtain rfl := List.mem_singleton.mp hb
    obtain ⟨above, below, hsplit, habove⟩ := hline.of_mem ha
    have hlength := congrArg List.length (hsplit.symm.trans (hline.unique hids habove))
    simp at hlength

lemma prefix_iff (ha : Line groups line a) (hb : Line groups line' b) :
    (line ++ [a]).map (·.id) <+: (line' ++ [b]).map (·.id) ↔
      a = b ∨ Relation.TransGen (ParentIn groups) a b := by
  rw [← hb.mem_iff hids]
  constructor
  · intro hprefix
    have hid : a.id ∈ (line' ++ [b]).map (·.id) := hprefix.subset (by simp)
    obtain ⟨x, hx, hid⟩ := List.mem_map.mp hid
    obtain rfl := eq_of_id hids (hb.stored hx) ha.mem hid
    rcases List.mem_append.mp hx with hx | hx
    · exact Or.inr hx
    · exact Or.inl (List.mem_singleton.mp hx)
  · rintro (rfl | hm)
    · obtain rfl := ha.unique hids hb
      exact List.prefix_refl _
    · obtain ⟨above, below, rfl, habove⟩ := hb.of_mem hm
      rw [ha.unique hids habove]
      exact List.IsPrefix.map _ ⟨below ++ [b], by simp⟩

lemma contains_iff (hplain : ∀ g ∈ groups, '/' ∉ g.id.toList) (ha : Line groups line a)
    (hb : Line groups line' b) (hfa : Follows line a) (hfb : Follows line' b) :
    a.contains b = true ↔ a = b ∨ Relation.TransGen (ParentIn groups) a b := by
  have hids' : ∀ {line g}, Line groups line g →
      ∀ id ∈ (line ++ [g]).map (·.id), '/' ∉ id.toList := by
    intro line g h id hid
    obtain ⟨x, hx, rfl⟩ := List.mem_map.mp hid
    exact hplain x (h.stored hx)
  rw [← prefix_iff hids ha hb, ← pathOf_prefix_iff (hids' ha) (hids' hb), ← hfa.path, ← hfb.path]
  simp [Group.contains]

/-- Every group of the forest is valid, and its depth, organization and path are those of its line;
by the paths it contains itself and the groups it is above, and no others. Below a group another one
can be made unless it is one of the deepest. -/
theorem paths_decide (h : Forest groups) (hplain : ∀ g ∈ groups, '/' ∉ g.id.toList) :
    (∀ g ∈ groups, g.validate = .ok () ∧ g.depth ≤ deepest ∧
      ∃ line, Line groups line g ∧ line.Nodup ∧
        (∀ a, a ∈ line ↔ Relation.TransGen (ParentIn groups) a g) ∧ g.depth = line.length ∧
        (∀ top, (line ++ [g]).head? = some top → g.organization = top.organization) ∧
        g.path = pathOf ((line ++ [g]).map (·.id))) ∧
    (∀ a ∈ groups, ∀ b ∈ groups,
      (a.contains b = true ↔ a = b ∨ Relation.TransGen (ParentIn groups) a b)) ∧
    ∀ p ∈ groups, ∀ id name, (∃ fault, p.childOf id name = .error fault) ↔ p.depth = deepest := by
  refine ⟨fun g hg => ?_, fun a ha b hb => ?_, fun p hp id name => ?_⟩
  · obtain ⟨line, hline, hf⟩ := h.exists_line hg
    exact ⟨hline.validate hf, hf.bounded, line, hline, hline.nodup hids,
      fun a => hline.mem_iff hids, hf.depth, hf.organization, hf.path⟩
  · obtain ⟨line, hline, hf⟩ := h.exists_line ha
    obtain ⟨line', hline', hf'⟩ := h.exists_line hb
    exact contains_iff hids hplain hline hline' hf hf'
  · obtain ⟨line, -, hf⟩ := h.exists_line hp
    have hbounded := hf.bounded
    rw [childOf]
    split
    · rename_i hfull
      exact iff_of_true ⟨_, rfl⟩ (by omega)
    · rename_i hroom
      exact iff_of_false (by rintro ⟨_, ⟨⟩⟩) (by omega)

end Distinct

def moor : Group := .root "moor" "Moor" "acme"
def fen : Group := .root "moorland" "Fen" "umbra"
def hill : Group := ⟨"hill", "Hill", "acme", some "moor", 1, "/moor/hill", true⟩
def peak : Group := ⟨"peak", "Peak", "acme", some "hill", 2, "/moor/hill/peak", true⟩
def ridge : Group := ⟨"hilltop", "Ridge", "acme", some "moor", 1, "/moor/hilltop", true⟩

def uplands : List Group := [ridge, peak, hill, fen, moor]

theorem paths_decide_uplands :
    (uplands.map (·.id)).Nodup ∧ Forest uplands ∧ (∀ g ∈ uplands, '/' ∉ g.id.toList) ∧
      Relation.TransGen (ParentIn uplands) moor peak ∧
      ¬ Relation.TransGen (ParentIn uplands) hill ridge ∧
      ¬ Relation.TransGen (ParentIn uplands) moor fen := by
  have hids : (uplands.map (·.id)).Nodup := by decide +kernel
  have hroots : Forest [fen, moor] :=
    .root "moorland" "Fen" "umbra" (.root "moor" "Moor" "acme" .empty)
  have hhill : Forest [hill, fen, moor] := .child "hill" "Hill" hroots (.tail _ (.head _)) rfl
  have hpeak : Forest [peak, hill, fen, moor] := .child "peak" "Peak" hhill (.head _) rfl
  have hforest : Forest uplands :=
    .child "hilltop" "Ridge" hpeak (.tail _ (.tail _ (.tail _ (.head _)))) rfl
  have hplain : ∀ g ∈ uplands, '/' ∉ g.id.toList := by decide +kernel
  have hcontains := (paths_decide hids hforest hplain).2.1
  refine ⟨hids, hforest, hplain, ?_, fun h => ?_, fun h => ?_⟩
  · have hpeak := (hcontains moor (by simp [uplands]) peak (by simp [uplands])).mp rfl
    exact hpeak.resolve_left (by decide)
  · have hridge := (hcontains hill (by simp [uplands]) ridge (by simp [uplands])).mpr (Or.inr h)
    revert hridge
    decide +kernel
  · have hfen := (hcontains moor (by simp [uplands]) fen (by simp [uplands])).mpr (Or.inr h)
    revert hfen
    decide +kernel

end AccessControl.Group
