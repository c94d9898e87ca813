import AccessControl.Proofs.Arrivals

/-! A role, a permission or a group that rows refer to, and that appears after a denial was kept, is
not noticed: nothing that is announced reaches what is kept. Apart from these, whatever gives access
takes effect at once. -/

namespace AccessControl

namespace Engine

open Admin (Operation)
open Admin.Operation (Arrival Settles settles_commit)

def archive : Store :=
  { Store.empty with
    roles := .ofList [.global "reader" "Reader"]
    groups := .ofList [.root "staff" "Staff" "acme"]
    memberships := [.ofUser "m" "staff" "ada"]
    groupRoles := [.ofGroup "g" (.root "staff" "Staff" "acme") "reader"]
    resources := .ofList [⟨"documents", "doc", none⟩]
    actions := .ofList [⟨"reading", "read"⟩]
    permissions := .ofList [.on "browse" "Browse" ⟨"documents", "doc", none⟩ ⟨"reading", "read"⟩]
    rolePermissions := [.link "l" "reader" "browse"] }

def archiveBefore : Arrival → Store
  | .role => { archive with roles := .empty }
  | .permission => { archive with permissions := .empty }
  | .group => { archive with groups := .empty }

def arrive : Arrival → Operation
  | .role => .createRole (.global "reader" "Reader")
  | .permission =>
    .createPermission (.on "browse" "Browse" ⟨"documents", "doc", none⟩ ⟨"reading", "read"⟩)
  | .group => .createGroup (.root "staff" "Staff" "acme")

def waiting (arrival : Arrival) : Engine UnsteadyCache where
  config := .standard
  models := [.named]
  store := archiveBefore arrival
  cache := some (.ofCapacity 8 fun _ => ⟨fun _ => false, .zero⟩)
  audit := none
  metrics := none
  ids := ⟨0⟩
  elapsed := .zero

def reading (resource : String) : AccessRequest := ⟨"ada", "doc", resource, "read"⟩

def midnight : Context := ⟨none, none, ⟨0, 0⟩⟩

def newcomer : Arrival → Newcomer
  | .role => .role (.global "reader" "Reader")
  | .permission =>
    .permission (.on "browse" "Browse" ⟨"documents", "doc", none⟩ ⟨"reading", "read"⟩)
  | .group => .group (.root "staff" "Staff" "acme")

lemma clean_midnight : midnight.Clean := by decide

lemma cacheable_archive : archive.Cacheable := by
  have hroles : archive.roles.rows = [.global "reader" "Reader"] := rfl
  constructor
  · rw [hroles, List.forall_mem_singleton]
    decide
  · exact fun _ h => absurd h List.not_mem_nil
  · intro m hm
    obtain rfl := List.mem_singleton.mp hm
    exact ⟨.none, .none⟩
  · exact fun _ h => absurd h List.not_mem_nil
  · intro g hg
    obtain rfl := List.mem_singleton.mp hg
    exact ⟨.none, .none⟩
  all_goals exact fun _ h => absurd h List.not_mem_nil

lemma cacheable_archiveBefore (arrival : Arrival) : (archiveBefore arrival).Cacheable := by
  cases arrival with
  | role => exact { cacheable_archive with roles := fun _ h => absurd h List.not_mem_nil }
  | permission | group => exact { cacheable_archive with }

lemma clean_plan : (reading "plan").Clean := by decide

lemma entry_newcomer (arrival : Arrival) :
    (newcomer arrival).entry (archiveBefore arrival) (waiting arrival).maxDepth = .ok archive := by
  cases arrival <;> rfl

lemma keepable_archiveBefore (arrival : Arrival) : (archiveBefore arrival).Keepable ⟨0, 0⟩ := by
  refine ⟨by decide, by decide, fun v h => ?_⟩
  have hrows : (archiveBefore arrival).memberships = archive.memberships ∧
      (archiveBefore arrival).userRoles = [] ∧
      (archiveBefore arrival).groupRoles = archive.groupRoles ∧
      (archiveBefore arrival).inheritance = [] ∧ (archiveBefore arrival).bindings.rows = [] := by
    cases arrival <;> exact ⟨rfl, rfl, rfl, rfl, rfl⟩
  obtain ⟨hmemberships, huserRoles, hgroupRoles, hinheritance, hbindings⟩ := hrows
  rcases h with h | ⟨b, hb, -⟩
  · cases h with
    | membership hm hv =>
      rw [hmemberships] at hm
      obtain rfl := List.mem_singleton.mp hm
      cases hv
    | groupRole hg hv =>
      rw [hgroupRoles] at hg
      obtain rfl := List.mem_singleton.mp hg
      cases hv
    | assignment hu => exact absurd (huserRoles ▸ hu) List.not_mem_nil
    | inheritance he => exact absurd (hinheritance ▸ he) List.not_mem_nil
  · exact absurd (hbindings ▸ hb) List.not_mem_nil

lemma allowsNow_iff {s : Store} (ha : s.available = true) {models : List GrantModel}
    {maxDepth : Nat} {request : AccessRequest} {ctx : Context} :
    s.AllowsNow models maxDepth request ctx ↔ (s.decide models
      (s.effectiveRoles maxDepth request.principal ctx) request ctx "").toOption.any
        (·.allowed) = true := by
  obtain ⟨d, hd, hallows, -⟩ := Store.decide_ok ha models
    (s.effectiveRoles maxDepth request.principal ctx) request ctx ""
  rw [hd]
  exact hallows.symm

lemma lifts_newcomer (arrival : Arrival) : (newcomer arrival).Lifts (archiveBefore arrival) archive
    (waiting arrival).models (waiting arrival).maxDepth (reading "plan") midnight := by
  have havailable : (archiveBefore arrival).available = true := by cases arrival <;> rfl
  constructor
  · rw [allowsNow_iff havailable]
    cases arrival <;> decide +kernel
  · rw [allowsNow_iff rfl]
    cases arrival <;> decide +kernel
  · cases arrival with
    | permission | group => exact fun _ hc => absurd hc List.not_mem_nil
    | role =>
      intro c hc
      obtain rfl := List.mem_singleton.mp hc
      have hitems : archive.staleItems (waiting .role).maxDepth (.role "reader") =
          [.role "reader"] := by decide +kernel
      have hnames : ((archiveBefore .role).effectiveRoles (waiting .role).maxDepth
          (reading "plan").principal midnight).names = [] := by decide +kernel
      change ¬ Store.Reached (archive.staleItems _ (.role "reader")) _ _ _
      rw [hitems, hnames]
      rintro ⟨item, hi, hreaches⟩
      obtain rfl := List.mem_singleton.mp hi
      exact absurd hreaches List.not_mem_nil

lemma literal_newcomer (arrival : Arrival) : (newcomer arrival).Literal := by
  cases arrival with
  | role =>
    change CacheKey.Plain "reader" ∧ '*' ∉ "reader".toList
    decide
  | permission | group => trivial

lemma roles_of_settles {σ : Type} [LosingCache σ] {e e' : Engine σ}
    (h : Settles (fun s' _ => s'.roles = e.store.roles) e e') : e'.store.roles = e.store.roles := by
  rcases h with rfl | ⟨s', changes, hr, rfl⟩
  · rfl
  · rw [(announce_base e s' changes).store]
    exact hr

lemma brings_arrive {arrival arrival' : Arrival} {e : Engine UnsteadyCache} {now : Instant}
    (h : (arrive arrival).Brings e now arrival') : arrival' = arrival := by
  cases arrival with
  | role =>
    cases arrival' with
    | role => rfl
    | permission | group =>
      obtain ⟨_, he, -⟩ := h
      cases he
  | permission =>
    cases arrival' with
    | permission => rfl
    | group =>
      obtain ⟨_, he, -⟩ := h
      cases he
    | role =>
      refine absurd h (Store.not_awakens (roles_of_settles (settles_commit fun row s' hw => ?_)))
      exact Store.read_ok (Admin.giving_ok.mp hw).2 ▸ rfl
  | group =>
    cases arrival' with
    | group => rfl
    | permission =>
      obtain ⟨_, he, -⟩ := h
      cases he
    | role =>
      refine absurd h (Store.not_awakens (roles_of_settles (settles_commit fun row s' hw => ?_)))
      obtain ⟨-, rfl⟩ := Store.insertGroup_ok (Admin.giving_ok.mp hw).2
      rfl

lemma proper_arrive (arrival : Arrival) : (arrive arrival).Proper := by
  cases arrival with
  | role =>
    change CacheKey.Plain _
    decide
  | permission | group => trivial

/-- Access takes effect at once in every run of evaluations at one instant and operations exactly if
no role, permission or group arrives that rows refer to. -/
theorem prompt_iff_none_tolerated (tolerated : Arrival → Prop) :
    (∀ (e₀ : Engine UnsteadyCache) (capacity : Nat) (mishaps : Nat → Mishap) (now : Instant),
      e₀.cache = some (.ofCapacity capacity mishaps) → e₀.store.available = true →
        e₀.store.Cacheable → ∀ e, RunAt tolerated now e₀ e → e.Prompt now) ↔
      ∀ arrival, ¬ tolerated arrival := by
  constructor
  · intro h arrival ht
    have havailable : (waiting arrival).store.available = true := by cases arrival <;> rfl
    have hlifetimes : 0 < (waiting arrival).lifetimes.roles.nanos ∧
        0 < (waiting arrival).lifetimes.decisions.nanos :=
      (by decide : 0 < Lifetimes.default.roles.nanos ∧ 0 < Lifetimes.default.decisions.nanos)
    have helapsed : (waiting arrival).elapsed.seconds < Word.bound :=
      (by decide : Duration.zero.seconds < Word.bound)
    have hkeepable : (waiting arrival).store.Keepable midnight.now := keepable_archiveBefore arrival
    obtain ⟨capacity, hnot⟩ := not_prompt_of_lifts havailable (cacheable_archiveBefore arrival)
      hkeepable hlifetimes.1 hlifetimes.2 helapsed (literal_newcomer arrival) (entry_newcomer arrival)
      clean_plan clean_midnight (by decide) (lifts_newcomer arrival)
    have hoperation : (newcomer arrival).operation = arrive arrival := by cases arrival <;> rfl
    rw [hoperation] at hnot
    refine hnot (h ((waiting arrival).withCache (some (.ofCapacity capacity _))) capacity _ ⟨0, 0⟩
      rfl havailable (cacheable_archiveBefore arrival) _
      (.operate (.evaluate .start clean_plan clean_midnight rfl) (proper_arrive arrival) ?_))
    exact fun arrival' hb => brings_arrive hb ▸ ht
  · intro hnone e₀ capacity mishaps now hcache havailable hcacheable e hrun
    have hstart : e₀.Covering now := ⟨havailable, hcacheable, keeps_of_empty fun c hc k v hl => by
      obtain rfl := Option.some.inj (hcache.symm.trans hc)
      obtain ⟨entry, hentry, -⟩ := hl
      exact absurd hentry List.not_mem_nil⟩
    exact (hrun.covering hstart hnone).prompt

end Engine

end AccessControl
