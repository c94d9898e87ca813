import AccessControl.Proofs.CachedTexts
import AccessControl.Proofs.ScannedValues

/-! Roles are read back from their texts as they were. Their numbers are whole and fit a word, and the
text of such a number is read as the number. -/

namespace AccessControl

lemma Number.reread_of_lt {k : Nat} (h : k < Word.bound) :
    (Number.integer k).reread = .integer k :=
  (readsBack_of_inWord ⟨by omega, by exact_mod_cast h⟩).reread

lemma Document.word?_of_reads {n m : Nat} (hn : n < Word.bound) {d : Document}
    (h : (Json.nat n).Reads d) (hm : d.word? = some m) : m = n := by
  rcases h with rfl | rfl
  · simp [word?, natBelow?] at hm
  · rw [Number.reread_of_lt hn] at hm
    simpa [word?, natBelow?, hn] using hm.symm

lemma Document.eq_of_list? {α : Type} {write : α → Json} {read : Document → Option α}
    {xs ys : List α} {d : Document}
    (heq : ∀ x ∈ xs, ∀ {y d}, (write x).Reads d → read d = some y → y = x)
    (h : (Json.array (xs.map write)).Reads d) (hy : d.list? read = some ys) : ys = xs := by
  have hall : List.Forall₂ (fun x y => x = y) xs ys :=
    Document.list?_of_reads (fun x hx _ _ hr hd => (heq x hx hr hd).symm) h hy
  exact (List.forall₂_eq_eq_eq ▸ hall : xs = ys).symm

lemma RoleScope.eq_of_reads {x y : RoleScope} {d : Document} (h : (Json.string x.word).Reads d)
    (hd : d.choice? words = some y) : y = x := by
  obtain rfl : d = .text x.word := h
  cases x <;> exact (Option.some.inj hd).symm

lemma Provenance.eq_of_reads {x y : Provenance} {d : Document} (h : x.json.Reads d)
    (hd : Provenance.ofDocument? d = some y) : y = x := by
  cases x with
  | direct =>
    rcases h with rfl | ⟨ds, rfl, d, rest, rfl, rfl, rfl⟩
    · simp [ofDocument?, Document.tagged?] at hd
    · exact (Option.some.inj hd).symm
  | viaGroup | viaOrganization | viaParent | viaBinding =>
    rcases h with rfl | ⟨ds, rfl, d, rest, rfl, rfl, d', rest', rfl, rfl, rfl⟩
    · simp [ofDocument?, Document.tagged?] at hd
    · exact (Option.some.inj hd).symm

namespace Role

structure Regular (role : Role) : Prop where
  version : role.version < Word.bound
  deletedAt : RegularBound role.deletedAt

lemma exists_fields (role : Role) : ∃ fields, role.json = .object fields ∧
    fields.lookup "id" = some (.string role.id) ∧
    fields.lookup "name" = some (.string role.name) ∧
    fields.lookup "description" = some (.string role.description) ∧
    fields.lookup "scope" = some (.string role.scope.word) ∧
    fields.lookup "organization_id" = role.organization.map .string ∧
    fields.lookup "parent_id" = role.parent.map .string ∧
    fields.lookup "is_default" = some (.bool role.isDefault) ∧
    fields.lookup "version" = some (.nat role.version) ∧
    fields.lookup "is_active" = some (.bool role.isActive) ∧
    fields.lookup "deleted_at" = role.deletedAt.map Instant.json := by
  refine ⟨_, rfl, ?_, ?_, ?_, ?_, ?_, ?_, ?_, ?_, ?_, ?_⟩ <;>
    simp [List.lookup_append, Json.lookup_field?, Json.lookup_cons]

lemma eq_of_reads {role role' : Role} (hrole : role.Regular) {d : Document}
    (h : role.json.Reads d) (hd : Role.ofDocument? d = some role') : role' = role := by
  obtain ⟨fields, hjson, hid, hname, hdescription, hscope, horganization, hparent, hdefault,
    hversion, hactive, hdeleted⟩ := role.exists_fields
  rw [hjson] at h
  obtain ⟨r, hr, hd⟩ := Option.bind_eq_some_iff.mp hd
  have hof := Record.Of.of_record? h hr
  simp only [Option.bind_eq_bind, Option.bind_eq_some_iff, Option.pure_def] at hd
  obtain ⟨_, h₁, _, h₂, _, h₃, _, h₄, _, h₅, _, h₆, _, h₇, _, h₈, _, h₉, _, h₁₀, hd⟩ := hd
  obtain rfl := Option.some.inj hd
  have htext : ∀ s : String, ¬ (Json.string s).Reads .null := by simp [Json.Reads]
  cases role
  rw [Role.mk.injEq]
  exact ⟨hof.eq_of_required Document.text?_of_reads hid h₁,
    hof.eq_of_required Document.text?_of_reads hname h₂,
    hof.eq_of_withDefault Document.text?_of_reads hdescription h₃,
    hof.eq_of_required RoleScope.eq_of_reads hscope h₄,
    hof.eq_of_optional htext (fun _ _ _ _ => Document.text?_of_reads) horganization h₅,
    hof.eq_of_optional htext (fun _ _ _ _ => Document.text?_of_reads) hparent h₆,
    hof.eq_of_withDefault Document.bool?_of_reads hdefault h₇,
    hof.eq_of_withDefault (Document.word?_of_reads hrole.version) hversion h₈,
    hof.eq_of_withDefault Document.bool?_of_reads hactive h₉,
    eq_of_optional_instant hof hrole.deletedAt hdeleted h₁₀⟩

end Role

namespace EffectiveRole

structure Regular (x : EffectiveRole) : Prop where
  role : x.role.Regular
  depth : x.depth < Word.bound

lemma eq_of_reads {x y : EffectiveRole} (hx : x.Regular) {d : Document} (h : x.json.Reads d)
    (hd : EffectiveRole.ofDocument? d = some y) : y = x := by
  obtain ⟨r, hr, hd⟩ := Option.bind_eq_some_iff.mp hd
  have hof := Record.Of.of_record? h hr
  simp only [Option.bind_eq_bind, Option.bind_eq_some_iff, Option.pure_def] at hd
  obtain ⟨role, hrole, provenance, hprovenance, depth, hdepth, hd⟩ := hd
  obtain rfl := Option.some.inj hd
  cases x
  rw [EffectiveRole.mk.injEq]
  exact ⟨hof.eq_of_required (Role.eq_of_reads hx.role) rfl hrole,
    hof.eq_of_required (Document.eq_of_list? fun _ _ _ _ => Provenance.eq_of_reads) rfl hprovenance,
    hof.eq_of_required (Document.word?_of_reads hx.depth) rfl hdepth⟩

end EffectiveRole

end AccessControl
