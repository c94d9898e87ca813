import AccessControl.Proofs.Edits

/-! Rows may refer to a role, a permission or a group that is not there. When it appears, or a role
starts to count, what the rows grant appears with it. Any other write leaves whoever is not reached by
what is announced for it with no more access than before. -/

namespace AccessControl

namespace Store

def AwaitsRole (s : Store) (now : Instant) (role : String) : Prop :=
  (∃ u ∈ s.userRoles, u.role = role ∧ u.isEffective now = true) ∨
    (∃ g ∈ s.groupRoles, g.role = role ∧ g.isEffective now = true) ∨
      (∃ b ∈ s.bindings.rows, b.role? = some role ∧ b.isActive = true) ∨
        ∃ r ∈ s.roles.rows, r.parent = some role ∧ r.isLive = true

def AwaitsPermission (s : Store) (permission : String) : Prop :=
  (∃ l ∈ s.rolePermissions, l.permission = permission ∧ l.isActive = true) ∨
    ∃ b ∈ s.bindings.rows, b.target = .permission permission ∧ b.isActive = true

def AwaitsGroup (s : Store) (now : Instant) (group : String) : Prop :=
  (∃ g ∈ s.groupRoles, g.group = group ∧ g.isEffective now = true) ∨
    (∃ e ∈ s.inheritance, e.child = group ∧ e.isEffective now = true) ∨
      ∃ b ∈ s.bindings.rows, b.subjectType = .group ∧ b.subject = group ∧ b.isActive = true

/-- Rows refer to the role, which is no default role; once it is written it counts in some
organization where it does not count before. -/
def Wakes (s : Store) (now : Instant) (role : Role) : Prop :=
  role.isDefault = false ∧ s.AwaitsRole now role.id ∧ ∃ organization, role.isLive = true ∧
    role.visibleTo organization = true ∧ ∀ old, ¬ s.Usable organization role.id old

def Awakens (s s' : Store) (now : Instant) : Prop :=
  ∃ role, s'.role? role.id = some role ∧ s.Wakes now role

structure Narrows (s s' : Store) (models : List GrantModel) (maxDepth : Nat) (principal : String)
    (ctx : Context) : Prop where
  under : (s'.effectiveRoles maxDepth principal ctx).Under (s.effectiveRoles maxDepth principal ctx)
  allows : ∀ request : AccessRequest, request.principal = principal →
    s'.AllowsNow models maxDepth request ctx → s.AllowsNow models maxDepth request ctx

variable {s s' : Store} {models : List GrantModel} {maxDepth : Nat} {principal : String}
  {ctx : Context} {names : List String}

lemma not_awakens {now : Instant} (hr : s'.roles = s.roles) : ¬ s.Awakens s' now := by
  rintro ⟨role, hrole, -, -, organization, hlive, hvisible, hno⟩
  rw [role?, hr] at hrole
  exact hno role ⟨hrole, hlive, hvisible⟩

lemma Narrows.of_unmoved (h : s.Unmoved s' maxDepth names principal ctx)
    (hr : s'.roles = s.roles) (ha : s.available = true) (ha' : s'.available = true)
    (hnames : ∀ id ∈ (s.effectiveRoles maxDepth principal ctx).names, id ∈ names) :
    s.Narrows s' models maxDepth principal ctx := by
  refine ⟨h.effectiveRoles hr ▸ .refl _, ?_⟩
  rintro request rfl hallows
  exact (h.allowsNow hr ha ha' hnames).mp hallows

lemma Narrows.of_under
    (h : (s'.effectiveRoles maxDepth principal ctx).Under (s.effectiveRoles maxDepth principal ctx))
    (ha : s.available = true) (hallows : ∀ (request : AccessRequest) e,
      s'.Allows models e request ctx → s.Allows models e request ctx) :
    s.Narrows s' models maxDepth principal ctx := by
  refine ⟨h, ?_⟩
  rintro request rfl hnow
  exact (hallows request _ hnow).mono ha h

lemma RolePath.congr {organization : Option String} {n : Nat} {a id : String}
    (h : s'.RolePath organization n a id) (hr : s'.roles = s.roles) :
    s.RolePath organization n a id := by
  have hrole : ∀ id, s'.role? id = s.role? id := fun id => by rw [role?, hr, role?]
  induction h with
  | here hu => exact .here ⟨hrole _ ▸ hu.1, hu.2⟩
  | up _ hx hparent hu ih => exact .up ih (hrole _ ▸ hx) hparent ⟨hrole _ ▸ hu.1, hu.2⟩

section role

variable {role : Role} {organization : Option String}

lemma role?_insert (s : Store) (role : Role) (id : String) :
    ({ s with roles := s.roles.insert role } : Store).role? id =
      if role.id = id then some role else s.role? id :=
  Table.get?_insert s.roles role id

structure Misses (s : Store) (maxDepth : Nat) (organization : Option String) (role : Role)
    (start : String) : Prop where
  here : start = role.id → ¬ (role.isLive = true ∧ role.visibleTo organization = true)
  up : ∀ n < maxDepth, ∀ id x, s.RolePath organization n start id → s.role? id = some x →
    x.parent = some role.id → ¬ (role.isLive = true ∧ role.visibleTo organization = true)

lemma misses_of_not_wakes {now : Instant} {start : String} (hw : ¬ s.Wakes now role)
    (hd : role.isDefault = false) (hstart : start = role.id → s.AwaitsRole now role.id)
    (hnot : ∀ n ≤ maxDepth, ¬ s.RolePath organization n start role.id) :
    s.Misses maxDepth organization role start := by
  have hold : s.AwaitsRole now role.id → role.isLive = true ∧ role.visibleTo organization = true →
      ∃ old, s.Usable organization role.id old := by
    intro hawaits hcounts
    by_contra hno
    exact hw ⟨hd, hawaits, organization, hcounts.1, hcounts.2, not_exists.mp hno⟩
  constructor
  · rintro he hcounts
    obtain ⟨old, hu⟩ := hold (hstart he) hcounts
    subst he
    exact hnot 0 (Nat.zero_le _) (.here hu)
  · intro n hn id x hp hx hparent hcounts
    obtain ⟨y, hy, hlive, -⟩ := hp.usable
    obtain rfl := Option.some.inj (hx.symm.trans hy)
    have hawaits : s.AwaitsRole now role.id :=
      Or.inr (Or.inr (Or.inr ⟨x, Table.mem_of_get? hx, hparent, hlive⟩))
    obtain ⟨old, hu⟩ := hold hawaits hcounts
    exact hnot (n + 1) hn (.up hp hx hparent hu)

lemma RolePath.of_insert {start id : String} {n : Nat}
    (h : ({ s with roles := s.roles.insert role } : Store).RolePath organization n start id)
    (hm : s.Misses maxDepth organization role start) (hn : n ≤ maxDepth) :
    id ≠ role.id ∧ s.RolePath organization n start id := by
  have husable : ∀ {id x}, ({ s with roles := s.roles.insert role } : Store).Usable organization
      id x → id ≠ role.id → s.Usable organization id x := by
    rintro id x ⟨hx, hu⟩ hne
    rw [role?_insert, if_neg hne.symm] at hx
    exact ⟨hx, hu⟩
  have hcounts : ∀ {x}, ({ s with roles := s.roles.insert role } : Store).Usable organization
      role.id x → role.isLive = true ∧ role.visibleTo organization = true := by
    rintro x ⟨hx, hu⟩
    rw [role?_insert, if_pos rfl] at hx
    obtain rfl := Option.some.inj hx
    exact hu
  induction h with
  | @here id x hu =>
    have hne : id ≠ role.id := by
      rintro rfl
      exact hm.here rfl (hcounts hu)
    exact ⟨hne, .here (husable hu hne)⟩
  | @up n start id x parent above _ hx hparent hu ih =>
    obtain ⟨hne, hp⟩ := ih hm (Nat.le_of_succ_le hn)
    rw [role?_insert, if_neg hne.symm] at hx
    have hne' : parent ≠ role.id := by
      rintro rfl
      exact hm.up n hn id x hp hx hparent (hcounts hu)
    exact ⟨hne', .up hp hx hparent (husable hu hne')⟩

lemma narrows_role (ha : s.available = true)
    (hname : role.id ∉ (s.effectiveRoles maxDepth principal ctx).names)
    (hd : role.isDefault = false) (hw : ¬ s.Wakes ctx.now role) :
    s.Narrows { s with roles := s.roles.insert role } models maxDepth principal ctx := by
  refine .of_under (under_of_paths ?_ (fun _ hb => hb) ?_) ha fun request e h => ?_
  · intro a hseed n hn id hp
    have hseed' : s.Seed principal ctx (· ∈ s.groupsOf maxDepth principal ctx) a ∧
        (a = role.id → s.AwaitsRole ctx.now role.id) := by
      cases hseed with
      | @assigned u hu hu' =>
        exact ⟨.assigned hu hu', fun he => Or.inl ⟨u, hu, he, hu'.2.1⟩⟩
      | @group g role' hg hr =>
        refine ⟨.group hg hr, ?_⟩
        rintro rfl
        obtain ⟨r, hr, -, he, heffective⟩ := hr
        exact Or.inr (Or.inl ⟨r, hr, he, heffective⟩)
      | default ho hr =>
        obtain ⟨r, hr, rfl, hdefault, hr'⟩ := hr
        rcases Table.mem_insert.mp hr with rfl | ⟨hr, hne⟩
        · simp [hd] at hdefault
        · exact ⟨.default ho ⟨r, hr, rfl, hdefault, hr'⟩, fun he => absurd he hne⟩
    refine ⟨hseed'.1, (hp.of_insert (misses_of_not_wakes hw hd hseed'.2 fun m hm hp => hname ?_)
      hn).2⟩
    exact EffectiveRoles.mem_names.mpr (Or.inl (mem_ids.mpr ⟨a, hseed'.1, m, hm, hp⟩))
  · intro b hb start hstart n hn id hp
    refine (hp.of_insert (misses_of_not_wakes hw hd ?_ fun m hm hp => hname ?_) hn).2
    · rintro rfl
      obtain ⟨hb, hb'⟩ := List.mem_filter.mp hb
      simp only [Bool.and_eq_true] at hb'
      exact Or.inr (Or.inr (Or.inl ⟨b, hb, hstart, hb'.1.1⟩))
    · exact mem_names_of_boundRoles (s := s) hb hstart hm hp
  · exact (allows_iff ha).mpr ((allows_iff (s := { s with roles := s.roles.insert role }) ha).mp h)

end role

lemma narrows_permission (ha : s.available = true) {row : Permission}
    (h : ¬ s.AwaitsPermission row.id) :
    s.Narrows { s with permissions := s.permissions.insert row } models maxDepth principal ctx := by
  refine .of_unmoved (unmoved_of_unnamed ?_ ?_) rfl ha ha fun _ hid => hid
  · exact fun l hl hactive _ he => h (Or.inl ⟨l, hl, he, hactive⟩)
  · intro b hb ht
    simp only [bindingsFor, List.mem_filter, Bool.and_eq_true] at hb
    exact h (Or.inr ⟨b, hb.1, ht, hb.2.1.1⟩)

lemma narrows_group (ha : s.available = true) {row : Group} (h : ¬ s.AwaitsGroup ctx.now row.id) :
    s.Narrows { s with groups := s.groups.insert row } models maxDepth principal ctx := by
  have hedges : (s.parentEdges row.id).filter (·.isEffective ctx.now) = [] := by
    simp only [parentEdges, List.filter_eq_nil_iff, List.mem_filter, beq_iff_eq]
    exact fun e he heffective => h (Or.inr (Or.inl ⟨e, he.1, he.2, heffective⟩))
  have hgroups : ∀ {g}, g ∈ ({ s with groups := s.groups.insert row } : Store).groupsOf maxDepth
      principal ctx → g ≠ row.id → g ∈ s.groupsOf maxDepth principal ctx :=
    fun hg hne => GroupWalk.mem_inherited_written hedges hg hne
  refine .of_under (under_of_paths ?_ ?_ ?_) ha fun request e h => ?_
  · intro a hseed n _ id hp
    refine ⟨?_, hp.congr rfl⟩
    cases hseed with
    | assigned hu ha => exact .assigned hu ha
    | default ho hd => exact .default ho hd
    | group hg hr =>
      refine .group (hgroups hg ?_) hr
      rintro rfl
      obtain ⟨r, hr, he, -, heffective⟩ := hr
      exact h (Or.inl ⟨r, hr, he, heffective⟩)
  · intro b hb
    simp only [bindingsFor, List.mem_filter, Bool.and_eq_true] at hb ⊢
    refine ⟨hb.1, hb.2.1, ?_⟩
    have hbinds := hb.2.2
    unfold bindsTo at hbinds ⊢
    cases ht : b.subjectType with
    | user | service => simpa [ht] using hbinds
    | group =>
      simp only [ht, List.contains_iff_mem] at hbinds ⊢
      exact hgroups hbinds fun he => h (Or.inr (Or.inr ⟨b, hb.1, ht, he, hb.2.1.1⟩))
  · exact fun _ _ _ _ _ _ _ hp => hp.congr rfl
  · exact (allows_iff ha).mpr
      ((allows_iff (s := { s with groups := s.groups.insert row }) ha).mp h)

lemma narrows_binding (ha : s.available = true) {row : Binding}
    (h : bindsTo principal (s.groupsOf maxDepth principal ctx) row ≠ true) :
    s.Narrows { s with bindings := s.bindings.insert row } models maxDepth principal ctx := by
  have hbindings : ∀ {b}, b ∈ ({ s with bindings := s.bindings.insert row } : Store).bindingsFor
      principal (s.groupsOf maxDepth principal ctx) ctx →
        b ∈ s.bindingsFor principal (s.groupsOf maxDepth principal ctx) ctx := by
    intro b hb
    simp only [bindingsFor, List.mem_filter, Bool.and_eq_true] at hb ⊢
    rcases Table.mem_put hb.1 with rfl | hm
    · exact absurd hb.2.2 h
    · exact ⟨hm, hb.2⟩
  refine .of_under (under_of_paths ?_ (fun _ hb => hbindings hb) ?_) ha fun request e h => ?_
  · intro a hseed n _ id hp
    refine ⟨?_, hp.congr rfl⟩
    cases hseed with
    | assigned hu ha => exact .assigned hu ha
    | group hg hr => exact .group hg hr
    | default ho hd => exact .default ho hd
  · exact fun _ _ _ _ _ _ _ hp => hp.congr rfl
  · exact (allows_iff ha).mpr
      ((allows_iff (s := { s with bindings := s.bindings.insert row }) ha).mp h)

inductive Quiet (s : Store) (now : Instant) : Store → List Change → Prop
  | edit {s' : Store} {changes : List Change} : s.Edit s' changes → ¬ s.Awakens s' now →
      Quiet s now s' changes
  | permission {row : Permission} : ¬ s.AwaitsPermission row.id →
      Quiet s now { s with permissions := s.permissions.insert row } []
  | group {row : Group} : ¬ s.AwaitsGroup now row.id →
      Quiet s now { s with groups := s.groups.insert row } []
  | binding {row : Binding} : (∀ c, row.caveat = some c → c.Codable) →
      Quiet s now { s with bindings := s.bindings.insert row } [.ofBinding row]

namespace Quiet

variable {now : Instant} {changes : List Change}

lemma available (h : s.Quiet now s' changes) : s'.available = s.available := by
  cases h with
  | edit he => exact he.available
  | permission | group | binding => rfl

lemma cacheable (h : s.Quiet now s' changes) (hs : s.Cacheable) : s'.Cacheable := by
  cases h with
  | edit he => exact he.cacheable hs
  | permission | group => exact { hs with }
  | @binding row hc =>
    refine { hs with caveats := fun b hb => ?_ }
    rcases Table.mem_put hb with rfl | hb
    · exact hc
    · exact hs.caveats b hb

lemma narrows (h : s.Quiet ctx.now s' changes) (ha : s.available = true)
    (hnames : ∀ id ∈ (s.effectiveRoles maxDepth principal ctx).names, id ∈ names)
    (hn : ∀ c ∈ changes, ¬ Reached (s'.staleItems maxDepth c) names principal ctx) :
    s.Narrows s' models maxDepth principal ctx := by
  cases h with
  | permission hawaits => exact narrows_permission ha hawaits
  | group hawaits => exact narrows_group ha hawaits
  | @binding row _ =>
    refine narrows_binding ha fun hb => hn _ List.mem_cons_self ?_
    exact reached_of_binding (s := { s with bindings := s.bindings.insert row }) hb
  | edit he hawake =>
    have hunmoved : s.Unmoved s' maxDepth names principal ctx := he.unmoved hn
    have ha' : s'.available = true := he.available.trans ha
    cases he with
    | @role row hid =>
      have hrole : ({ s with roles := s.roles.insert row } : Store).role? row.id = some row := by
        rw [role?_insert, if_pos rfl]
      have hn := hn _ List.mem_cons_self
      refine narrows_role ha (fun hm => hn ?_) ?_ fun hw => hawake ⟨row, hrole, hw⟩
      · exact ⟨.role row.id, List.mem_cons_self, hnames _ hm⟩
      · by_contra hd
        refine hn ⟨.everything, List.mem_append_right _ ?_, trivial⟩
        simpa [stale, hrole] using hd
    | userRoles | permission | links | grants | binding | groupRoles | memberships | inheritance
    | attributes => exact .of_unmoved hunmoved rfl ha ha' hnames

end Quiet

end Store

end AccessControl
