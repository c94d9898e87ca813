import AccessControl.Proofs.Subtrees
import AccessControl.Proofs.Upkeep

/-! An edge that would close a cycle of inheritance is found as long as the way round is no longer than
the depth limit, and only then: nothing bounds how long a chain of edges may grow. -/

namespace AccessControl

namespace Store

def Acyclic (s : Store) : Prop :=
  ∀ n id, ¬ s.Below id (n + 1) id

def ChainsWithin (s : Store) (longest : Nat) : Prop :=
  ∀ n top id, s.Below top n id → n ≤ longest

def link (s : Store) (edge : Inheritance) : Store :=
  { s with inheritance := s.inheritance ++ [edge] }

variable {s : Store} {edge : Inheritance} {maxDepth longest : Nat}

lemma acyclic_of_inheritance (h : s.inheritance = []) : s.Acyclic := by
  intro n id hb
  cases hb with
  | down _ hm _ => exact List.not_mem_nil (h ▸ hm)

lemma Below.of_link {top id : String} {n : Nat} (h : (s.link edge).Below top n id) :
    s.Below top n id ∨ ∃ m k, s.Below top m edge.parent ∧ s.Below edge.child k id := by
  induction h with
  | here => exact Or.inl .here
  | down _ hm hp ih =>
    rcases List.mem_append.mp hm with hm | hm
    · rcases ih with h | ⟨m, k, hup, hdown⟩
      · exact Or.inl (.down h hm hp)
      · exact Or.inr ⟨m, k + 1, hup, .down hdown hm hp⟩
    · obtain rfl := List.mem_singleton.mp hm
      rcases ih with h | ⟨m, -, hup, -⟩
      · exact Or.inr ⟨_, 0, hp ▸ h, .here⟩
      · exact Or.inr ⟨m, 0, hup, .here⟩

lemma Acyclic.link (h : s.Acyclic) (hn : ∀ n, ¬ s.Below edge.child n edge.parent) :
    (s.link edge).Acyclic := by
  intro n id hb
  rcases hb.of_link with hb | ⟨m, k, hup, hdown⟩
  · exact h n id hb
  · exact hn (k + m) (hdown.trans hup)

lemma not_acyclic_link {n : Nat} (h : s.Below edge.child n edge.parent) :
    ¬ (s.link edge).Acyclic := by
  intro hacyclic
  have hchain : (s.link edge).Below edge.child n edge.parent :=
    h.mono fun _ hm => List.mem_append_left _ hm
  exact hacyclic n edge.child (.down hchain (List.mem_append_right _ List.mem_cons_self) rfl)

lemma Acyclic.link_iff (h : s.Acyclic) (hc : s.ChainsWithin maxDepth) :
    (s.link edge).Acyclic ↔ edge.parent ∉ s.groupSubtree maxDepth edge.child := by
  constructor
  · intro hlink hm
    obtain ⟨n, -, hb⟩ := below_of_mem_groupSubtree hm
    exact not_acyclic_link hb hlink
  · intro hm
    exact h.link fun n hb => hm (mem_groupSubtree hb (hc n _ _ hb))

end Store

namespace Admin

open Operation (Settles settles_commit)

variable {σ : Type} [CacheService σ] {e : Engine σ} {edge : Inheritance} {s : Store}

lemma checkInheritance_ok {maxDepth : Nat} (h : checkInheritance s maxDepth edge = .ok ()) :
    edge.parent ∉ s.groupSubtree maxDepth edge.child := by
  obtain ⟨below, hbelow, h⟩ := bind_ok.mp h
  obtain rfl := Store.read_ok hbelow
  split at h
  · cases h
  · rename_i hm
    simpa using hm

lemma settles_addInheritance (e : Engine σ) (edge : Inheritance) :
    Settles (fun s' _ => edge.parent ∉ e.store.groupSubtree e.maxDepth edge.child ∧
      s' = e.store.link edge) e (addInheritance e edge).2 := by
  apply settles_commit
  intro edge' s' h
  obtain ⟨⟨⟩, hcheck, h⟩ := bind_ok.mp h
  obtain ⟨rfl, hok⟩ := giving_ok.mp h
  exact ⟨checkInheritance_ok hcheck, (Store.insertInheritance_ok hok).2⟩

lemma store_addInheritance (ha : e.store.available = true)
    (h : edge.parent ∉ e.store.groupSubtree e.maxDepth edge.child) :
    (addInheritance e edge).2.store = e.store.link edge := by
  have hcheck : checkInheritance e.store e.maxDepth edge = .ok () := by
    refine bind_ok.mpr ⟨_, Store.read_of_available ha _, ?_⟩
    rw [if_neg (by simpa using h)]
    rfl
  have hne : edge.parent ≠ edge.child := fun he =>
    h (he ▸ Store.self_mem_groupSubtree e.store e.maxDepth edge.parent)
  have hinsert : e.store.insertInheritance edge = .ok (e.store.link edge) := by
    rw [Store.insertInheritance, if_neg hne]
    exact Store.read_of_available ha _
  exact Engine.store_commit
    ⟨edge, bind_ok.mpr ⟨(), hcheck, giving_ok.mpr ⟨rfl, hinsert⟩⟩⟩

end Admin

namespace Engine

open Admin (addInheritance)

variable {σ : Type} [CacheService σ] {e e₀ : Engine σ} {s : Store} {longest : Nat}

/-- The engines that additions of inheritance edges lead to, taken or refused. Before each one no
chain of edges is longer than the bound. -/
inductive InheritanceRun (longest : Nat) (e₀ : Engine σ) : Engine σ → Prop
  | start : InheritanceRun longest e₀ e₀
  | add {e : Engine σ} (edge : Inheritance) : InheritanceRun longest e₀ e →
      e.store.ChainsWithin longest → InheritanceRun longest e₀ (addInheritance e edge).2

lemma InheritanceRun.maxDepth (h : InheritanceRun longest e₀ e) : e.maxDepth = e₀.maxDepth := by
  induction h with
  | start => rfl
  | @add e edge _ _ ih =>
    rw [← ih, Engine.maxDepth, Engine.maxDepth,
      config_of_settles (Admin.settles_addInheritance e edge)]

lemma acyclic_addInheritance (h : e.store.Acyclic) (hc : e.store.ChainsWithin e.maxDepth)
    (edge : Inheritance) : (addInheritance e edge).2.store.Acyclic := by
  rcases store_of_settles (Admin.settles_addInheritance e edge) with he | ⟨-, hm, he⟩
  · rw [he]
    exact h
  · rw [he]
    exact (h.link_iff hc).mpr hm

lemma InheritanceRun.acyclic (h : InheritanceRun longest e₀ e) (h₀ : e₀.store.Acyclic)
    (hle : longest ≤ e₀.maxDepth) : e.store.Acyclic := by
  induction h with
  | start => exact h₀
  | @add e edge hrun hc ih =>
    have hdepth : longest ≤ e.maxDepth := hrun.maxDepth ▸ hle
    exact acyclic_addInheritance ih (fun n top id hb => (hc n top id hb).trans hdepth) edge

def rung (n : Nat) : String := String.ofList (List.replicate n 'g')

lemma rung_inj {n m : Nat} (h : rung n = rung m) : n = m := by
  have := congrArg (fun g => g.toList.length) h
  simpa [rung] using this

def ladder : Nat → Store
  | 0 => .empty
  | n + 1 => (ladder n).link (.between "" (rung n) (rung (n + 1)))

lemma mem_ladder {n : Nat} {edge : Inheritance} :
    edge ∈ (ladder n).inheritance ↔ ∃ i < n, edge = .between "" (rung i) (rung (i + 1)) := by
  induction n with
  | zero => exact ⟨fun h => absurd h List.not_mem_nil, fun ⟨_, hi, _⟩ => absurd hi (Nat.not_lt_zero _)⟩
  | succ n ih =>
    have hmem : edge ∈ (ladder (n + 1)).inheritance ↔
        edge ∈ (ladder n).inheritance ∨ edge = .between "" (rung n) (rung (n + 1)) := by
      simp [ladder, Store.link]
    rw [hmem, ih]
    constructor
    · rintro (⟨i, hi, rfl⟩ | rfl)
      · exact ⟨i, Nat.lt_succ_of_lt hi, rfl⟩
      · exact ⟨n, Nat.lt_succ_self n, rfl⟩
    · rintro ⟨i, hi, rfl⟩
      rcases Nat.lt_succ_iff_lt_or_eq.mp hi with hi | rfl
      · exact Or.inl ⟨i, hi, rfl⟩
      · exact Or.inr rfl

lemma below_ladder {n m : Nat} {top id : String} (h : (ladder n).Below top m id) :
    m = 0 ∧ id = top ∨ ∃ i, top = rung i ∧ id = rung (i + m) ∧ i + m ≤ n := by
  induction h with
  | here => exact Or.inl ⟨rfl, rfl⟩
  | down _ he hp ih =>
    obtain ⟨j, hj, rfl⟩ := mem_ladder.mp he
    have hp : rung j = _ := hp
    rcases ih with ⟨rfl, rfl⟩ | ⟨i, rfl, rfl, -⟩
    · exact Or.inr ⟨j, hp.symm, rfl, hj⟩
    · obtain rfl := rung_inj hp
      exact Or.inr ⟨i, rfl, rfl, hj⟩

lemma chainsWithin_ladder (n : Nat) : (ladder n).ChainsWithin n := by
  intro m top id h
  rcases below_ladder h with ⟨rfl, -⟩ | ⟨i, -, -, hle⟩ <;> omega

lemma below_rung {n m : Nat} (h : m ≤ n) : (ladder n).Below (rung 0) m (rung m) := by
  induction m with
  | zero => exact .here
  | succ m ih => exact .down (ih (Nat.le_of_succ_le h)) (mem_ladder.mpr ⟨m, h, rfl⟩) rfl

lemma available_ladder (n : Nat) : (ladder n).available = true := by
  induction n with
  | zero => rfl
  | succ n ih => exact ih

def Builds (longest : Nat) (e₀ : Engine σ) (s : Store) : Prop :=
  ∃ e, InheritanceRun longest e₀ e ∧ e.store = s

lemma Builds.link (h : Builds longest e₀ s) (edge : Inheritance) (ha : s.available = true)
    (hc : s.ChainsWithin longest) (hm : edge.parent ∉ s.groupSubtree e₀.maxDepth edge.child) :
    Builds longest e₀ (s.link edge) := by
  obtain ⟨e, hrun, rfl⟩ := h
  exact ⟨_, .add edge hrun hc, Admin.store_addInheritance ha (hrun.maxDepth ▸ hm)⟩

lemma builds_ladder (h : e₀.store = .empty) {n : Nat} (hn : n ≤ longest + 1) :
    Builds longest e₀ (ladder n) := by
  induction n with
  | zero => exact ⟨e₀, .start, h⟩
  | succ n ih =>
    refine (ih (Nat.le_of_succ_le hn)).link _ (available_ladder n)
      (fun m top id hb => (chainsWithin_ladder n m top id hb).trans (Nat.le_of_succ_le_succ hn)) ?_
    intro hm
    obtain ⟨m, -, hb⟩ := Store.below_of_mem_groupSubtree hm
    rcases below_ladder hb with ⟨-, he⟩ | ⟨i, he, he', -⟩
    · exact absurd (rung_inj he) (by omega)
    · have := rung_inj he
      have := rung_inj he'
      omega

lemma builds_cycle (e₀ : Engine σ) (h : e₀.store = .empty) (hd : e₀.maxDepth < longest) :
    ∃ s, Builds longest e₀ s ∧ ¬ s.Acyclic := by
  have hladder : Builds longest e₀ (ladder (e₀.maxDepth + 1)) := builds_ladder h (by omega)
  have hchains : (ladder (e₀.maxDepth + 1)).ChainsWithin longest := fun m top id hb =>
    (chainsWithin_ladder _ m top id hb).trans hd
  have hunseen : rung (e₀.maxDepth + 1) ∉
      (ladder (e₀.maxDepth + 1)).groupSubtree e₀.maxDepth (rung 0) := by
    intro hm
    obtain ⟨m, hle, hb⟩ := Store.below_of_mem_groupSubtree hm
    rcases below_ladder hb with ⟨-, he⟩ | ⟨i, he, he', -⟩
    · exact absurd (rung_inj he) (by omega)
    · have := rung_inj he
      have := rung_inj he'
      omega
  exact ⟨_, hladder.link (.between "" (rung (e₀.maxDepth + 1)) (rung 0)) (available_ladder _)
    hchains hunseen, Store.not_acyclic_link (below_rung (Nat.le_refl _))⟩

/-- For every depth limit: additions of inheritance edges to a store without any, made while no chain
of edges is longer than a bound, lead to no cycle exactly if the bound is within the limit. -/
theorem acyclic_iff_longest_le_maxDepth (config : Config) (longest : Nat) :
    (∀ e₀ e : Engine σ, e₀.config = config → e₀.store.inheritance = [] →
        InheritanceRun longest e₀ e → e.store.Acyclic) ↔ longest ≤ config.hierarchy.maxDepth := by
  constructor
  · intro hall
    by_contra hlt
    let e₀ : Engine σ := ⟨config, [], .empty, none, none, none, ⟨0⟩, .zero⟩
    obtain ⟨s, ⟨e, hrun, rfl⟩, hcycle⟩ := builds_cycle e₀ rfl (Nat.lt_of_not_le hlt)
    exact hcycle (hall e₀ e rfl rfl hrun)
  · rintro hle e₀ e rfl hempty hrun
    exact hrun.acyclic (Store.acyclic_of_inheritance hempty) hle

end Engine

end AccessControl
