import AccessControl.Resolution
import AccessControl.Proofs.RoleForests
import Mathlib.Logic.Relation

/-! Whether a role would come above itself is asked in two ways. The walk through the store stops at
a role that it has seen, the search in the graph after as many links as there are roles. Both find
what parent links lead to from the new parent and nothing else, whatever cycles there are already. -/

namespace AccessControl

namespace RoleGraph

variable {g : RoleGraph} {x y : String}

lemma exists_above_iff :
    (∃ n, g.above n x = some y) ↔ Relation.ReflTransGen (fun a b => g.parent? a = some b) x y := by
  constructor
  · rintro ⟨n, hn⟩
    induction n generalizing y with
    | zero =>
      obtain rfl := Option.some.inj hn
      exact .refl
    | succ n ih =>
      obtain ⟨z, hz, hparent⟩ := Option.bind_eq_some_iff.mp hn
      exact (ih hz).tail hparent
  · intro h
    induction h with
    | refl => exact ⟨0, rfl⟩
    | tail _ hparent ih =>
      obtain ⟨n, hn⟩ := ih
      refine ⟨n + 1, ?_⟩
      rw [above, hn]
      exact hparent

end RoleGraph

namespace Store

def LinksTo (s : Store) (id parent : String) : Prop :=
  ∃ role, s.role? id = some role ∧ role.parent = some parent

variable {s : Store} {child parent a b : String} {w w' : CycleWalk}

lemma linksTo_iff : s.LinksTo a b ↔ (s.role? a).bind (·.parent) = some b :=
  Option.bind_eq_some_iff.symm

lemma cycleStep_cases (h : s.cycleStep child w = some w') :
    ∃ role, w.next = some role ∧
      (role = child ∧ w' = { w with next := none, met := true } ∨
        role ≠ child ∧ role ∈ w.seen ∧ w' = { w with next := none } ∨
        role ≠ child ∧ role ∉ w.seen ∧
          w' = { w with next := (s.role? role).bind (·.parent), seen := role :: w.seen }) := by
  rw [cycleStep] at h
  split at h
  · cases h
  · rename_i role hrole
    refine ⟨role, hrole, ?_⟩
    split at h
    · rename_i hchild
      exact Or.inl ⟨hchild, (Option.some.inj h).symm⟩
    · rename_i hne
      split at h
      · rename_i hseen
        exact Or.inr (Or.inl ⟨hne, by simpa using hseen, (Option.some.inj h).symm⟩)
      · rename_i hseen
        exact Or.inr (Or.inr ⟨hne, by simpa using hseen, (Option.some.inj h).symm⟩)

inductive Scanned (s : Store) (child parent : String) (w : CycleWalk) : Prop
  | met : w.met = true → w.next = none → Relation.ReflTransGen s.LinksTo parent child →
      Scanned s child parent w
  | unmet : w.met = false → child ∉ w.seen →
      (∀ a, w.next = some a → Relation.ReflTransGen s.LinksTo parent a) →
      (parent ∈ w.seen ∨ w.next = some parent) →
      (∀ a ∈ w.seen, ∀ b, s.LinksTo a b → b ∈ w.seen ∨ w.next = some b) → Scanned s child parent w

lemma Scanned.step (h : s.cycleStep child w = some w') (hw : s.Scanned child parent w) :
    s.Scanned child parent w' := by
  obtain ⟨role, hrole, hcases⟩ := cycleStep_cases h
  cases hw with
  | met _ hnone _ => cases hrole.symm.trans hnone
  | unmet hmet hchild hled hbegun hclosed =>
    have hnext : ∀ {a}, w.next = some a → a = role := fun ha =>
      Option.some.inj (ha.symm.trans hrole)
    rcases hcases with ⟨rfl, rfl⟩ | ⟨-, hseen, rfl⟩ | ⟨hne, -, rfl⟩
    · exact .met rfl rfl (hled role hrole)
    · refine .unmet hmet hchild (fun a ha => by cases ha) (Or.inl ?_) fun a ha b hb => Or.inl ?_
      · exact hbegun.elim id fun hp => hnext hp ▸ hseen
      · exact (hclosed a ha b hb).elim id fun hp => hnext hp ▸ hseen
    · refine .unmet hmet ?_ (fun a ha => ?_) (Or.inl ?_) fun a ha b hb => ?_
      · exact List.not_mem_cons_of_ne_of_not_mem (fun he => hne he.symm) hchild
      · exact (hled role hrole).tail (linksTo_iff.mpr ha)
      · rcases hbegun with hp | hp
        · exact List.mem_cons_of_mem _ hp
        · exact hnext hp ▸ List.mem_cons_self
      · rcases List.mem_cons.mp ha with rfl | ha
        · exact Or.inr (linksTo_iff.mp hb)
        · rcases hclosed a ha b hb with hp | hp
          · exact Or.inl (List.mem_cons_of_mem _ hp)
          · exact Or.inl (hnext hp ▸ List.mem_cons_self)

lemma mem_of_closed {seen : List String} (hparent : parent ∈ seen)
    (hclosed : ∀ a ∈ seen, ∀ b, s.LinksTo a b → b ∈ seen)
    (h : Relation.ReflTransGen s.LinksTo parent child) : child ∈ seen := by
  induction h with
  | refl => exact hparent
  | tail _ hlink ih => exact hclosed _ ih _ hlink

def unvisited (s : Store) (w : CycleWalk) : Nat :=
  match w.next with
  | none => 0
  | some _ => s.roles.rows.countP (fun r => !w.seen.contains r.id) + 1

lemma unvisited_lt (h : s.cycleStep child w = some w') : s.unvisited w' < s.unvisited w := by
  obtain ⟨role, hrole, hcases⟩ := cycleStep_cases h
  have hleft : s.unvisited w = s.roles.rows.countP (fun r => !w.seen.contains r.id) + 1 := by
    simp [unvisited, hrole]
  rw [hleft]
  rcases hcases with ⟨-, rfl⟩ | ⟨-, -, rfl⟩ | ⟨-, hseen, rfl⟩
  · exact Nat.succ_pos _
  · exact Nat.succ_pos _
  · cases hfound : s.role? role with
    | none =>
      simp [unvisited]
    | some found =>
      have hcount := Walk.countP_unseen Role.id s.roles.rows
        (fun _ => List.mem_cons : ∀ x, x ∈ role :: w.seen ↔ x = role ∨ x ∈ w.seen) hseen
      have hpos : 0 < s.roles.rows.countP fun r => r.id == role :=
        List.countP_pos_iff.mpr ⟨found, Table.mem_of_get? hfound, beq_iff_eq.mpr (role?_id hfound)⟩
      cases hp : found.parent with
      | none => simp [unvisited, hp]
      | some p =>
        simp only [unvisited, Option.bind_some, hp]
        omega

lemma next_of_cycleStep (h : s.cycleStep child w = none) : w.next = none := by
  cases hn : w.next with
  | none => rfl
  | some role =>
    simp only [cycleStep, hn] at h
    repeat' split at h
    all_goals cases h

lemma wouldCreateCycle_eq_true_iff :
    s.wouldCreateCycle child parent = true ↔ Relation.ReflTransGen s.LinksTo parent child := by
  have hunvisited : s.unvisited ⟨some parent, [], false⟩ ≤ s.roles.size + 2 := by
    simp [unvisited, Table.size]
  have hstart : s.Scanned child parent ⟨some parent, [], false⟩ :=
    .unmet rfl List.not_mem_nil (fun a ha => Option.some.inj ha ▸ .refl) (Or.inr rfl) (by simp)
  obtain ⟨w, hrun, hend, hscanned⟩ :=
    Walk.exists_run_eq s.unvisited unvisited_lt Scanned.step hunvisited hstart
  rw [wouldCreateCycle, hrun]
  cases hscanned with
  | met hmet _ hled => exact ⟨fun _ => hled, fun _ => hmet⟩
  | unmet hmet hchild _ hbegun hclosed =>
    have hnone : ∀ {a}, w.next = some a → False := fun ha => by
      cases (next_of_cycleStep hend).symm.trans ha
    refine ⟨fun hm => absurd (hmet.symm.trans hm) Bool.false_ne_true, fun h => absurd ?_ hchild⟩
    exact mem_of_closed (hbegun.resolve_right hnone)
      (fun a ha b hb => (hclosed a ha b hb).resolve_right hnone) h

lemma parent?_ofRoles (hlive : ∀ id role, s.role? id = some role → role.isLive = true)
    (hstored : ∀ id role p, s.role? id = some role → role.parent = some p →
      ∃ above, s.role? p = some above) :
    (RoleGraph.ofRoles s.roles.rows).parent? a = some b ↔ s.LinksTo a b := by
  have hshown := shown_ofRoles s
  have husable : ∀ {id role}, s.role? id = some role → s.Usable none id role := fun h =>
    usable_none.mpr ⟨h, hlive _ _ h⟩
  rw [RoleGraph.parent?, Option.filter_eq_some_iff, Option.bind_eq_some_iff]
  constructor
  · rintro ⟨⟨role, hrole, hp⟩, -⟩
    exact ⟨role, ((hshown a role).mp hrole).1, hp⟩
  · rintro ⟨role, hrole, hp⟩
    obtain ⟨above, habove⟩ := hstored a role b hrole hp
    exact ⟨⟨role, (hshown a role).mpr (husable hrole), hp⟩,
      hshown.contains.mpr ⟨above, husable habove⟩⟩

/-- While every stored role is live and every parent is stored, the graph and the store answer
alike, namely whether the child is the parent or above it. -/
theorem predictions_agree (hlive : ∀ id role, s.role? id = some role → role.isLive = true)
    (hstored : ∀ id role p, s.role? id = some role → role.parent = some p →
      ∃ above, s.role? p = some above) (child parent : String) :
    ((RoleGraph.ofRoles s.roles.rows).wouldCreateCycle child parent = true ↔
        child = parent ∨ Relation.TransGen s.LinksTo parent child) ∧
      (∀ answer, s.checkCycle child parent = .ok answer →
        answer = (RoleGraph.ofRoles s.roles.rows).wouldCreateCycle child parent) ∧
      (s.available = true → ∃ answer, s.checkCycle child parent = .ok answer) := by
  have hgraph : (RoleGraph.ofRoles s.roles.rows).wouldCreateCycle child parent = true ↔
      Relation.ReflTransGen s.LinksTo parent child := by
    rw [RoleGraph.wouldCreateCycle_iff, RoleGraph.exists_above_iff,
      funext₂ fun a b => propext (parent?_ofRoles (a := a) (b := b) hlive hstored)]
  have hsame : s.wouldCreateCycle child parent =
      (RoleGraph.ofRoles s.roles.rows).wouldCreateCycle child parent :=
    Bool.eq_iff_iff.mpr (wouldCreateCycle_eq_true_iff.trans hgraph.symm)
  refine ⟨hgraph.trans Relation.reflTransGen_iff_eq_or_transGen, fun answer h => ?_, fun ha => ?_⟩
  · rw [checkCycle] at h
    split at h
    · rename_i he
      rw [← Except.ok.inj h]
      exact (hgraph.mpr (he ▸ .refl)).symm
    · rw [← hsame]
      exact (Except.ok.inj (call_ok h)).symm
  · rw [checkCycle, read_of_available ha]
    split
    · exact ⟨_, rfl⟩
    · exact ⟨_, rfl⟩

def carousel : Store :=
  { Store.empty with
    roles := .ofList [{ Role.global "a" "A" with parent := some "b" },
      { Role.global "b" "B" with parent := some "c" },
      { Role.global "c" "C" with parent := some "b" },
      { Role.global "d" "D" with parent := some "a" }] }

theorem predictions_agree_carousel :
    (∀ id role, carousel.role? id = some role → role.isLive = true) ∧
    (∀ id role p, carousel.role? id = some role → role.parent = some p →
      ∃ above, carousel.role? p = some above) ∧
    carousel.checkCycle "c" "a" = .ok true ∧ Relation.TransGen carousel.LinksTo "a" "c" ∧
    carousel.checkCycle "d" "a" = .ok false ∧ ¬ Relation.TransGen carousel.LinksTo "a" "d" := by
  have hrows : ∀ role ∈ carousel.roles.rows, role.isLive = true ∧
      ∀ p ∈ role.parent, (carousel.role? p).isSome = true := by decide +kernel
  have hlive : ∀ id role, carousel.role? id = some role → role.isLive = true := fun id role h =>
    (hrows role (Table.mem_of_get? h)).1
  have hstored : ∀ id role p, carousel.role? id = some role → role.parent = some p →
      ∃ above, carousel.role? p = some above := fun id role p h hp =>
    Option.isSome_iff_exists.mp ((hrows role (Table.mem_of_get? h)).2 p hp)
  obtain ⟨hon, hasked, -⟩ := predictions_agree hlive hstored "c" "a"
  obtain ⟨hoff, hasked', -⟩ := predictions_agree hlive hstored "d" "a"
  have hc : carousel.checkCycle "c" "a" = .ok true := by decide +kernel
  have hd : carousel.checkCycle "d" "a" = .ok false := by decide +kernel
  refine ⟨hlive, hstored, hc, (hon.mp (hasked true hc).symm).resolve_left (by decide), hd, ?_⟩
  intro h
  cases (hasked' false hd).trans (hoff.mpr (Or.inr h))

end Store

end AccessControl
