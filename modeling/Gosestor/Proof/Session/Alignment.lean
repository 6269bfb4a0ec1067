import Gosestor.Proof.Session.OnRedis

/-!
# A session expires as a whole

At every time of every run, what Redis holds of a session expires with its row: the key that maps to
it, its cookies, their hashes and its reverse set.
-/

namespace Gosestor

open Gosestor.Go Gosestor.Lib Gosestor.Lib.Redis Gosestor.Store

namespace Store

variable (r : Redis)

inductive Beside (db : Keyspace GoString) (id : GoString) : GoString → Prop
  | attr : Beside db id (r.attrKey id)
  | sha : Beside db id (r.shaKey id)
  | reverse : Beside db id (r.reverseKey id)
  | key {keyID : GoString} (maps : db.text (r.keyKey keyID) = some id) : Beside db id (r.keyKey keyID)

structure Aligned (db : Keyspace GoString) : Prop where
  expires : ∀ {id name e}, Plain id → Beside r db id name → db name = some e →
    ∃ row, db (r.sessKey id) = some row ∧ row.expiry = e.expiry
  maps : ∀ {keyID}, db (r.keyKey keyID) ≠ none → ∃ id, Plain id ∧ db.text (r.keyKey keyID) = some id
  reverse : ∀ {id keyID}, Plain id →
    (keyID ∈ (db.members (r.reverseKey id)).keys ↔ db.text (r.keyKey keyID) = some id)
  onlyKey : ∀ {id keyID keyID'}, db.text (r.keyKey keyID) = some id →
    db.text (r.keyKey keyID') = some id → keyID = keyID'

variable {r} {db : Keyspace GoString} {T : Table}

theorem expiry_of_cell {n : Slot} {e : Entry GoString} (found : db (r.name n) = some e) :
    (db.cells r.name n).expiry = e.expiry := by
  simp [Keyspace.expiry_cells, Keyspace.expiry, found]

theorem Kept.expiry_cell {k : Kept} {p : Part} (there : (k.cell p).isSome) :
    (k.cell p).expiry = k.expiry := by
  cases p with
  | row => rfl
  | attr | sha =>
      simp only [Kept.cell, Cell.ofLook] at there ⊢
      split_ifs with empty
      · simp [empty] at there
      · rfl
  | keys =>
      simp only [Kept.cell] at there ⊢
      cases keyed : k.key with
      | none => simp [keyed] at there
      | some keyID => rfl

theorem Represents.aligned (rep : Represents (db.cells r.name) T) : Aligned r db := by
  have maps : ∀ {keyID id}, db.text (r.keyKey keyID) = some id ↔ T.KeyLeadsTo keyID id := by
    intro keyID id
    rw [← rep.text_key, Keyspace.text_cells]
    rfl
  have row : ∀ {id k}, T.sessions id = some k → ∃ row, db (r.sessKey id) = some row ∧
      row.expiry = k.expiry := by
    intro id k found
    have cell := rep.part .row ⟨id, (rep.named found).1⟩
    have there : (db (r.name (.part .row ⟨id, (rep.named found).1⟩))).isSome := by
      rw [← Keyspace.isSome_cells, cell, found]
      rfl
    obtain ⟨e, held⟩ := Option.isSome_iff_exists.mp there
    have same := expiry_of_cell held
    rw [cell, found] at same
    rw [← r.sessKey_name] at held
    exact ⟨e, held, same.symm⟩
  have part : ∀ (p : Part) (id : PlainID) {e}, db (r.name (.part p id)) = some e →
      ∃ row, db (r.sessKey id) = some row ∧ row.expiry = e.expiry := by
    intro p id e held
    have same := expiry_of_cell held
    have there : (db.cells r.name (.part p id)).isSome := by simp [Keyspace.isSome_cells, held]
    rw [rep.part] at same there
    cases found : T.sessions id with
    | none => simp [found] at there
    | some k =>
        simp only [found, Option.bind_some] at same there
        rw [← same, Kept.expiry_cell there]
        exact row found
  refine ⟨?_, ?_, ?_, ?_⟩
  · intro id name e plain beside held
    cases beside with
    | attr => exact part .attr ⟨id, plain⟩ (by rwa [← r.attrKey_name])
    | sha => exact part .sha ⟨id, plain⟩ (by rwa [← r.shaKey_name])
    | reverse => exact part .keys ⟨id, plain⟩ (by rwa [← r.reverseKey_name])
    | @key keyID mapped =>
        obtain ⟨k, found, keyed⟩ := maps.mp mapped
        have same := expiry_of_cell (n := .key keyID) held
        rw [rep.key found keyed] at same
        obtain ⟨row, held, rowSame⟩ := row found
        exact ⟨row, held, rowSame.trans same⟩
  · intro keyID held
    have there : (db.cells r.name (.key keyID)).isSome := by
      rw [Keyspace.isSome_cells]
      exact Option.isSome_iff_ne_none.mpr held
    obtain ⟨id, k, found, keyed⟩ := rep.only there
    exact ⟨id, (rep.named found).1, maps.mpr ⟨k, found, keyed⟩⟩
  · intro id keyID plain
    rw [maps, r.reverseKey_name ⟨id, plain⟩, ← Keyspace.mem_members_cells, rep.part]
    unfold Table.KeyLeadsTo
    cases T.sessions id with
    | none => simp [Cell.members]
    | some k => cases keyed : k.key <;> simp [Kept.cell, Cell.members, keyed, eq_comm]
  · intro id keyID keyID' first second
    obtain ⟨k, found, keyed⟩ := maps.mp first
    obtain ⟨k', found', keyed'⟩ := maps.mp second
    rw [found] at found'
    cases found'
    exact Option.some.inj (keyed.symm.trans keyed')

end Store

/-- Whatever jobs ran, with lost calls and lost answers, and however late it is. -/
theorem session_expires_as_a_whole {r : Redis} {reads : Int → Int → Prop} {job : Nat → Session.Job}
    (plain : PlainHandles job) {site : Site} (run : (serverJobs r reads job).Reaches Site.idle site)
    (now : Int) : Aligned r (site.state.db.asOf now) := by
  obtain ⟨T, tabled, -⟩ := tabled_reaches (P := fun _ _ => True) plain trivial
    (fun _ _ _ _ _ => trivial) run
  exact (tabled.rep.asOf_cells now).aligned

theorem resolved_session_expires_as_a_whole : ∃ site,
    (serverJobs sampleRedis sameClock beginResolve).Reaches Site.idle site ∧
    ((site.state.db (sampleRedis.keyKey (drawn 2))).bind Entry.expiry = some 1802000 ∧
      site.state.time = 3000000) ∧
    ∀ now, Aligned sampleRedis (site.state.db.asOf now) := by
  have taken : (Site.idle.turns sampleRedis beginResolve beginResolveTurns).any fun site =>
      decide ((site.state.db (sampleRedis.keyKey (drawn 2))).bind Entry.expiry = some 1802000 ∧
        site.state.time = 3000000) := by
    decide +kernel
  obtain ⟨site, reached, held⟩ := (Option.any_eq_true _ _).mp taken
  have run := turns_reaches reached
  exact ⟨site, run, of_decide_eq_true held, session_expires_as_a_whole beginResolve_plain run⟩

end Gosestor
