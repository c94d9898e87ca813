import AccessControl.Proofs.VersionedRows

/-! Clients read the versioned rows of one store and write them back, in any order. Of the writes that
present one version of a row at most one succeeds, since the version of a row only ever grows. -/

namespace AccessControl

inductive Call where
  | read (entity : Entity) (id : String)
  | write (w : VersionedWrite)

abbrev Answer := Except Fault (Option VersionedRow)

namespace Call

def act (s : Store) : Call → Answer × Store
  | read entity id => (s.read (s.versioned? entity id), s)
  | write w =>
    match w.steps s with
    | .ok row s' => (.ok (some row), s')
    | .error fault s' => (.error fault, s')

end Call

abbrev Client := List Answer → Call

structure SharedStore (ι : Type) where
  store : Store
  heard : ι → List Answer

structure Event (ι : Type) where
  client : ι
  call : Call
  before : Store

namespace Event

variable {ι : Type}

def answer (ev : Event ι) : Answer := (ev.call.act ev.before).1

def after (ev : Event ι) : Store := (ev.call.act ev.before).2

def Wins (ev : Event ι) (entity : Entity) (id : String) (version : Nat) : Prop :=
  ∃ w, ev.call = .write w ∧ (w.entity = entity ∧ w.id = id ∧ w.presented = version) ∧
    ∃ row, ev.answer = .ok row

/-- How a write comes out by the row that it met. -/
structure Decided (ev : Event ι) (w : VersionedWrite) : Prop where
  succeeds_iff : (∃ row, ev.answer = .ok row) ↔ w.check = .ok () ∧
    ∃ stored, ev.before.versioned? w.entity w.id = some stored ∧ stored.version = w.presented
  returned : ∀ answer, ev.answer = .ok answer → ∃ stored row,
    ev.before.versioned? w.entity w.id = some stored ∧ row = w.result stored ∧
    answer = some row ∧ ev.after = ev.before.putVersioned row ∧
    ev.after.versioned? w.entity w.id = some row ∧ row.version = w.presented + 1
  unchanged : ∀ fault, ev.answer = .error fault → ev.after = ev.before
  conflict : w.check = .ok () → ∀ stored, ev.before.versioned? w.entity w.id = some stored →
    stored.version ≠ w.presented →
    ev.answer = .error (.conflict w.entity w.id w.presented stored.version)

end Event

namespace Store

def Unexhausted (s : Store) : Prop :=
  ∀ entity id row, s.versioned? entity id = some row → row.version + 1 < Word.bound

def AtLeast (s : Store) (entity : Entity) (id : String) (version : Nat) : Prop :=
  ∃ row, s.versioned? entity id = some row ∧ version ≤ row.version

lemma unexhausted_of_roles {s : Store}
    (hroles : s.roles.rows.all (fun r => r.version + 1 < Word.bound) = true)
    (hpermissions : s.permissions.rows = []) (hbindings : s.bindings.rows = []) :
    s.Unexhausted := by
  intro entity id row h
  cases entity with
  | role =>
    obtain ⟨r, hr, rfl⟩ := Option.map_eq_some_iff.mp h
    exact of_decide_eq_true (List.all_eq_true.mp hroles r (Table.mem_of_get? hr))
  | permission =>
    obtain ⟨p, hp, rfl⟩ := Option.map_eq_some_iff.mp h
    exact absurd (Table.mem_of_get? hp) (hpermissions ▸ List.not_mem_nil)
  | binding =>
    obtain ⟨b, hb, rfl⟩ := Option.map_eq_some_iff.mp h
    exact absurd (Table.mem_of_get? hb) (hbindings ▸ List.not_mem_nil)
  | resourcePermission => cases h

lemma Unexhausted.next {s s' : Store} {w : VersionedWrite} {row : VersionedRow}
    (hv : s.Unexhausted) (h : w.act s = .ok (row, s')) : row.version = w.presented + 1 := by
  obtain ⟨stored, hstored, hversion, -, -, hnext⟩ := w.spec_of_ok h
  rw [hnext, nextVersion_of_lt (hv _ _ _ hstored), hversion]

end Store

namespace Event

variable {ι : Type} {ev : Event ι} {w : VersionedWrite} {entity : Entity} {id : String}
  {version : Nat}

lemma written (h : ev.call = .write w) :
    (∃ fault, w.act ev.before = .error fault ∧ ev.answer = .error fault ∧ ev.after = ev.before) ∨
      ∃ row, w.act ev.before = .ok (row, ev.after) ∧ ev.answer = .ok (some row) := by
  rw [answer, after, h, Call.act, VersionedWrite.steps_eq]
  cases w.act ev.before with
  | error fault => exact Or.inl ⟨fault, rfl, rfl, rfl⟩
  | ok written => exact Or.inr ⟨written.1, rfl, rfl⟩

lemma written_of_ok (h : ev.call = .write w) {answer : Option VersionedRow}
    (hok : ev.answer = .ok answer) :
    ∃ row, answer = some row ∧ w.act ev.before = .ok (row, ev.after) := by
  rcases written h with ⟨fault, -, hanswer, -⟩ | ⟨row, hact, hanswer⟩
  · rw [hanswer] at hok
    cases hok
  · exact ⟨row, Except.ok.inj (hok.symm.trans hanswer), hact⟩

lemma decided (ha : ev.before.available = true) (hv : ev.before.Unexhausted)
    (h : ev.call = .write w) : ev.Decided w := by
  have hw := written h
  constructor
  case succeeds_iff =>
    constructor
    · rintro ⟨answer, hok⟩
      obtain ⟨row, -, hact⟩ := written_of_ok h hok
      obtain ⟨hc, -, stored, hstored, hversion, -⟩ := VersionedWrite.act_eq_ok.mp hact
      exact ⟨hc, stored, hstored, hversion.symm⟩
    · rintro ⟨hc, stored, hstored, hversion⟩
      have hact := VersionedWrite.act_eq_ok.mpr ⟨hc, ha, stored, hstored, hversion.symm, rfl, rfl⟩
      rcases hw with ⟨fault, hact', -⟩ | ⟨row, -, hanswer⟩
      · rw [hact] at hact'
        cases hact'
      · exact ⟨_, hanswer⟩
  case returned =>
    intro answer hok
    obtain ⟨row, hrow, hact⟩ := written_of_ok h hok
    obtain ⟨-, -, -, hafter, hkey, -⟩ := w.spec_of_ok hact
    obtain ⟨-, -, stored, hstored, -, hresult, -⟩ := VersionedWrite.act_eq_ok.mp hact
    refine ⟨stored, row, hstored, hresult, hrow, hafter, ?_, hv.next hact⟩
    rw [hafter, Store.versioned?_put, if_pos hkey]
  case unchanged =>
    intro fault hfault
    rcases hw with ⟨fault', -, -, hafter⟩ | ⟨row, -, hanswer⟩
    · exact hafter
    · rw [hanswer] at hfault
      cases hfault
  case conflict =>
    intro hc stored hstored hne
    have hact := VersionedWrite.act_of_stale hc ha hstored hne
    rcases hw with ⟨fault, hact', hanswer, -⟩ | ⟨row, hact', -⟩
    · rw [hanswer, Except.error.inj (hact'.symm.trans hact)]
    · rw [hact] at hact'
      cases hact'

lemma available_after (ha : ev.before.available = true) : ev.after.available = true := by
  cases h : ev.call with
  | read entity id =>
    rw [after, h]
    exact ha
  | write w =>
    rcases written h with ⟨fault, -, -, hafter⟩ | ⟨row, hact, -⟩
    · rw [hafter]
      exact ha
    · obtain ⟨-, -, -, hafter, -⟩ := w.spec_of_ok hact
      rw [hafter, Store.available_put]
      exact ha

lemma atLeast_after (hv : ev.before.Unexhausted) (h : ev.before.AtLeast entity id version) :
    ev.after.AtLeast entity id version := by
  obtain ⟨row, hrow, hle⟩ := h
  cases hcall : ev.call with
  | read entity id =>
    rw [after, hcall]
    exact ⟨row, hrow, hle⟩
  | write w =>
    rcases written hcall with ⟨fault, -, -, hafter⟩ | ⟨row', hact, -⟩
    · rw [hafter]
      exact ⟨row, hrow, hle⟩
    · obtain ⟨stored, hstored, hversion, hafter, ⟨he, hid⟩, -⟩ := w.spec_of_ok hact
      have hnext := hv.next hact
      rw [hafter]
      by_cases hkey : row'.entity = entity ∧ row'.id = id
      · refine ⟨row', by rw [Store.versioned?_put, if_pos hkey], ?_⟩
        rw [← he, ← hid, hkey.1, hkey.2, hrow] at hstored
        obtain rfl := Option.some.inj hstored
        omega
      · exact ⟨row, by rw [Store.versioned?_put, if_neg hkey, hrow], hle⟩

lemma Wins.atLeast_after (hv : ev.before.Unexhausted) (h : ev.Wins entity id version) :
    ev.after.AtLeast entity id (version + 1) := by
  obtain ⟨w, hcall, ⟨rfl, rfl, rfl⟩, answer, hok⟩ := h
  obtain ⟨row, -, hact⟩ := written_of_ok hcall hok
  obtain ⟨stored, -, -, hafter, hkey, -⟩ := w.spec_of_ok hact
  refine ⟨row, ?_, (hv.next hact).ge⟩
  rw [hafter, Store.versioned?_put, if_pos hkey]

lemma not_wins_of_atLeast (h : ev.before.AtLeast entity id (version + 1)) :
    ¬ ev.Wins entity id version := by
  rintro ⟨w, hcall, ⟨rfl, rfl, rfl⟩, answer, hok⟩
  obtain ⟨later, hlater, hle⟩ := h
  obtain ⟨row, -, hact⟩ := written_of_ok hcall hok
  obtain ⟨stored, hstored, hversion, -⟩ := w.spec_of_ok hact
  obtain rfl := Option.some.inj (hlater.symm.trans hstored)
  omega

end Event

namespace SharedStore

variable {ι : Type} [DecidableEq ι]

def event (clients : ι → Client) (w : SharedStore ι) (i : ι) : Event ι :=
  ⟨i, clients i (w.heard i), w.store⟩

def next (clients : ι → Client) (w : SharedStore ι) (i : ι) : SharedStore ι where
  store := (w.event clients i).after
  heard j := if j = i then (w.event clients i).answer :: w.heard j else w.heard j

def history (clients : ι → Client) (w : SharedStore ι) : List ι → List (Event ι)
  | [] => []
  | i :: schedule => w.event clients i :: (w.next clients i).history clients schedule

variable {clients : ι → Client} {w : SharedStore ι} {schedule : List ι} {entity : Entity}
  {id : String} {version : Nat}

lemma forall_history {P : Store → Prop} (h : P w.store)
    (hstep : ∀ ev ∈ w.history clients schedule, P ev.before → P ev.after) :
    ∀ ev ∈ w.history clients schedule, P ev.before := by
  induction schedule generalizing w with
  | nil => exact fun ev hm => absurd hm List.not_mem_nil
  | cons i schedule ih =>
    rw [history, List.forall_mem_cons] at hstep ⊢
    exact ⟨h, ih (hstep.1 h) hstep.2⟩

lemma pairwise_history (hv : ∀ ev ∈ w.history clients schedule, ev.before.Unexhausted) :
    (w.history clients schedule).Pairwise fun ev later =>
      ∀ entity id version, ev.Wins entity id version → ¬ later.Wins entity id version := by
  induction schedule generalizing w with
  | nil => exact .nil
  | cons i schedule ih =>
    rw [history, List.forall_mem_cons] at hv
    refine .cons (fun later hm entity id version hwins => ?_) (ih hv.2)
    -- The winner leaves the next version behind, which no later event gets below.
    have hnext : (w.next clients i).store.AtLeast entity id (version + 1) :=
      hwins.atLeast_after hv.1
    have hlater := forall_history (P := fun s => s.AtLeast entity id (version + 1)) hnext
      fun ev hm => Event.atLeast_after (hv.2 ev hm)
    exact Event.not_wins_of_atLeast (hlater later hm)

/-- No update is lost: in every order of the calls of any clients, each versioned write is decided by
the row it meets, and of those that present one version of a row at most one succeeds. -/
theorem no_lost_update (clients : ι → Client) (w : SharedStore ι) (schedule : List ι)
    (ha : w.store.available = true)
    (hv : ∀ ev ∈ w.history clients schedule, ev.before.Unexhausted) :
    (∀ ev ∈ w.history clients schedule, ∀ write, ev.call = .write write → ev.Decided write) ∧
      (w.history clients schedule).Pairwise fun ev later =>
        ∀ entity id version, ev.Wins entity id version → ¬ later.Wins entity id version := by
  have havailable : ∀ ev ∈ w.history clients schedule, ev.before.available = true :=
    forall_history (P := fun s => s.available = true) ha fun ev _ => Event.available_after
  exact ⟨fun ev hm write hcall => Event.decided (havailable ev hm) (hv ev hm) hcall,
    pairwise_history hv⟩

def renamer (name : String) : Client
  | .ok (some (.role row)) :: _ => .write (.updateRole { row with name := name })
  | _ => .read .role "r"

def race : SharedStore Bool where
  store := { Store.empty with roles := .ofList [.global "r" "Reader"] }
  heard _ := []

theorem no_lost_update_race :
    ∃ a b first second, race.history (fun i => renamer (cond i "Author" "Editor"))
        [true, false, true, false] = [a, b, first, second] ∧
      first.Wins .role "r" 1 ∧ ¬ second.Wins .role "r" 1 ∧
        second.answer = .error (.conflict .role "r" 1 2) := by
  have hv : ∀ ev ∈ race.history (fun i => renamer (cond i "Author" "Editor"))
      [true, false, true, false], ev.before.Unexhausted := by
    intro ev hm
    simp only [history, List.mem_cons, List.not_mem_nil, or_false] at hm
    rcases hm with rfl | rfl | rfl | rfl <;> exact Store.unexhausted_of_roles rfl rfl rfl
  let first : Event Bool :=
    ⟨true, .write (.updateRole { Role.global "r" "Reader" with name := "Author" }), race.store⟩
  have hwins : first.Wins .role "r" 1 := ⟨_, rfl, ⟨rfl, rfl, rfl⟩, _, rfl⟩
  obtain ⟨hdecided, hpairwise⟩ := no_lost_update _ race [true, false, true, false] rfl hv
  simp only [history, List.pairwise_cons, List.forall_mem_cons] at hdecided hpairwise
  refine ⟨_, _, first, _, rfl, hwins, hpairwise.2.2.1.1 _ _ _ hwins, ?_⟩
  exact (hdecided.2.2.2.1 _ rfl).conflict (by decide +kernel) _ rfl (by decide)

/-- A role that does not validate is refused before its version is looked at. -/
theorem not_forall_stale_conflict :
    ¬ ∀ (clients : Unit → Client) (w : SharedStore Unit) (schedule : List Unit),
      w.store.available = true →
      (∀ ev ∈ w.history clients schedule, ev.before.Unexhausted) →
      ∀ ev ∈ w.history clients schedule, ∀ write stored, ev.call = .write write →
        ev.before.versioned? write.entity write.id = some stored →
        stored.version ≠ write.presented →
        ev.answer = .error (.conflict write.entity write.id write.presented stored.version) := by
  intro h
  let w : SharedStore Unit :=
    ⟨{ Store.empty with roles := .ofList [{ Role.global "r" "Reader" with version := 2 }] },
      fun _ => []⟩
  let write : VersionedWrite := .updateRole (.global "r" "")
  have hevents : w.history (fun _ _ => .write write) [()] = [⟨(), .write write, w.store⟩] := rfl
  have hanswer := h (fun _ _ => .write write) w [()] rfl
    (by simpa [hevents] using Store.unexhausted_of_roles rfl rfl rfl)
    ⟨(), .write write, w.store⟩ (by simp [hevents]) write _ rfl rfl (by decide)
  have hrefused : Event.answer ⟨(), .write write, w.store⟩ =
      .error (.validation "role name is required") := rfl
  rw [hrefused] at hanswer
  cases hanswer

end SharedStore

end AccessControl
