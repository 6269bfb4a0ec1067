import Gosestor.Proof.Session.Effects
import Gosestor.Proof.Session.Serial
import Gosestor.Proof.Session.Supplies

/-!
# What a response does to its session

`Response.Meets` says what `ApplyResponse` is for, in terms of what the backend asked for and of
the row before it. It does not mention how the controls are put together or in which order they
are written.
-/

namespace Gosestor

open Gosestor.Go Gosestor.Lib Gosestor.Store

namespace Store.Memory

def mutate (entry : CookieMutation → GoString) (map : GoMap GoString GoString)
    (c : CookieMutation) : GoMap GoString GoString :=
  if c.delete then map.delete c.name else map.set c.name (entry c)

theorem CookieTable.put_getD (table : CookieTable) (id name value : GoString) :
    ((CookieTable.put table id name value).get id).getD ∅ =
      ((table.get id).getD ∅).set name value := by
  rw [CookieTable.put, GoMap.get_set_self, Option.getD_some]

theorem CookieTable.drop_getD (table : CookieTable) (id name : GoString) :
    ((CookieTable.drop table id name).get id).getD ∅ = ((table.get id).getD ∅).delete name := by
  unfold CookieTable.drop
  cases held : table.get id with
  | none =>
      simp only [held, Option.getD_none]
      rfl
  | some cookies => rw [GoMap.get_set_self, Option.getD_some, Option.getD_some]

theorem foldl_applyCookie_own (id : GoString) (cookies : List CookieMutation) (m : Memory) :
    (cookies.foldl (applyCookie id) m).getCookies id =
        cookies.foldl (mutate CookieMutation.value) (m.getCookies id) ∧
      (cookies.foldl (applyCookie id) m).cookieSHAs id =
        cookies.foldl (mutate CookieMutation.sha) (m.cookieSHAs id) := by
  induction cookies generalizing m with
  | nil => exact ⟨rfl, rfl⟩
  | cons c cookies ih =>
      simp only [List.foldl_cons]
      rw [(ih _).1, (ih _).2]
      unfold applyCookie mutate getCookies cookieSHAs
      split_ifs with deletes
      · simp only [CookieTable.drop_getD, and_self]
      · simp only [CookieTable.put_getD, and_self]

theorem foldl_applyCookie_locks (id : GoString) (cookies : List CookieMutation) (m : Memory) :
    (cookies.foldl (applyCookie id) m).locks = m.locks := by
  induction cookies generalizing m with
  | nil => rfl
  | cons c cs ih => rw [List.foldl_cons, ih]; unfold applyCookie; split_ifs <;> rfl

theorem commit_cookies (m : Memory) (id : GoString) (s : Session) (c : SessionControls) :
    (m.commit id s c).getCookies id =
        c.cookies.foldl (mutate CookieMutation.value) (m.getCookies id) ∧
      (m.commit id s c).cookieSHAs id =
        c.cookies.foldl (mutate CookieMutation.sha) (m.cookieSHAs id) :=
  foldl_applyCookie_own id c.cookies _

theorem applySessionControls_ok {m : Memory} {id : GoString} {s : Session} {c : SessionControls}
    (found : m.sessions.get id = some s) (held : m.keys.get c.oldKeyID = some id)
    (free : c.rotate = true → m.keys.get c.newKeyID = none) :
    m.applySessionControls id c = (.ok (), m.commit id s c) := by
  unfold applySessionControls
  simp only [found, held, ne_eq, not_true_eq_false, if_false]
  rw [if_neg]
  rintro ⟨rotate, taken⟩
  exact taken (free rotate)

theorem commit_locks (m : Memory) (id : GoString) (s : Session) (c : SessionControls) :
    (m.commit id s c).locks = m.locks :=
  foldl_applyCookie_locks id c.cookies _

end Store.Memory

namespace Session

def cookieAfter (cookies : GoMap GoString GoString) (c : CookieMutation) : GoMap GoString GoString :=
  if c.delete then cookies.delete c.name else cookies.set c.name c.value

def hashAfter (m : Manager) (shas : GoMap GoString GoString) (c : CookieMutation) :
    GoMap GoString GoString :=
  if c.delete then shas.delete c.name else shas.set c.name (encodeToString (m.sum256 c.value))

namespace Response

variable (r : Response) (row : Session) (now : Int)

def NewOwner : Prop := ∃ owner, r.ownerID = some owner ∧ owner.val ≠ row.ownerID

def NewLabels : Prop :=
  ∃ given, r.labels = some given ∧ ¬ ∀ x, x ∈ given ↔ x ∈ fields row.labels

def Due : Prop :=
  0 < r.manager.cfg.rotateInterval ∧
    Duration.truncSeconds r.manager.cfg.rotateInterval ≤ now - row.lastRotation

def Swaps : Prop :=
  r.forceRotate = true ∨ r.Due row now ∨ r.NewLabels row ∨
    (r.NewOwner row ∧ r.manager.cfg.rotateOnLogin = true)

def Writes : Prop := r.NewOwner row ∨ r.NewLabels row ∨ r.cookies ≠ []

/-- The row that the response leaves behind. -/
structure Becomes (row' : Session) : Prop where
  owner : row'.ownerID = (r.ownerID.map (·.val)).getD row.ownerID
  labels : ∀ given, r.labels = some given → ∀ x, x ∈ fields row'.labels ↔ x ∈ given
  unlabelled : r.labels = none → row'.labels = row.labels
  accessed : r.Writes row → row'.lastAccess = max row.lastAccess now
  unwritten : ¬ r.Writes row → row'.lastAccess = row.lastAccess
  rotated : r.Swaps row now → row'.lastRotation = max row.lastRotation now
  unswapped : ¬ r.Swaps row now → row'.lastRotation = row.lastRotation
  fixed : row'.id = row.id ∧ row'.creation = row.creation ∧
    row'.inactiveTimeout = row.inactiveTimeout ∧ row'.finalTimeout = row.finalTimeout

/-- The transition of the store; `reported` is the new proxy cookie. -/
structure Meets (mem mem' : Memory) (reported : Option GoString) : Prop where
  swap : reported.isSome = true ↔ r.Swaps row now
  newKey : ∀ key, reported = some key → mem.keys.get key = none
  keys : ∀ k, mem'.keys.get k = some r.live.sessionID ↔ k = reported.getD r.live.keyID
  row : ∃ row', mem'.sessions.get r.live.sessionID = some row' ∧ r.Becomes row now row' ∧
    ∀ o, InIndex mem'.owners o r.live.sessionID ↔ row'.ownerID = o ∧ 0 < o
  cookies : mem'.getCookies r.live.sessionID =
    r.cookies.foldl cookieAfter (mem.getCookies r.live.sessionID)
  hashes : mem'.cookieSHAs r.live.sessionID =
    r.cookies.foldl (hashAfter r.manager) (mem.cookieSHAs r.live.sessionID)
  others : ∀ s, s ≠ r.live.sessionID → Memory.SameEntries mem mem' s
  locks : mem'.locks = mem.locks

end Response

def LabelString (stored : GoString) : Prop :=
  ∃ labels, (∀ x ∈ labels, IsLabel x) ∧ stored = normalizeLabels labels

theorem LabelString.normalize_eq_iff {stored : GoString} {given : List GoString}
    (canonical : LabelString stored) (plain : ∀ x ∈ given, IsLabel x) :
    normalizeLabels given = stored ↔ ∀ x, x ∈ given ↔ x ∈ fields stored := by
  obtain ⟨labels, plain', rfl⟩ := canonical
  rw [normalizeLabels_eq_iff plain plain']
  simp only [mem_fields_normalizeLabels plain']

section Controls

variable {r : Response} {row : Session} {now : Int}

theorem controls_setOwner_iff : (r.controls row now).setOwner = true ↔ r.NewOwner row := by
  simp only [Response.controls, Live.controls, Response.NewOwner]
  cases r.ownerID <;> simp

theorem controls_setLabels_iff (canonical : LabelString row.labels)
    (plain : ∀ given, r.labels = some given → ∀ x ∈ given, IsLabel x) :
    (r.controls row now).setLabels = true ↔ r.NewLabels row := by
  simp only [Response.controls, Live.controls, Response.NewLabels]
  cases labels : r.labels with
  | none => simp
  | some given =>
      rw [Option.any_some, decide_eq_true_iff, ne_eq,
        canonical.normalize_eq_iff (plain given labels)]
      simp

theorem rotationDue_iff (timely : 0 ≤ row.lastRotation ∧ row.lastRotation < 2 ^ 63)
    (clock : 0 ≤ now ∧ now < 2 ^ 63) :
    r.manager.rotationDue row now = true ↔ r.Due row now := by
  unfold Manager.rotationDue Response.Due
  rw [int64_of_range (by omega) (by omega)]
  simp

theorem nothingToDo_iff : Live.nothingToDo (r.controls row now) = true ↔
    (r.controls row now).setOwner = false ∧ (r.controls row now).setLabels = false ∧
      (r.controls row now).rotate = false ∧ r.cookies = [] := by
  have cookies : (r.controls row now).cookies = r.cookies.map (Live.mutation r.manager) := rfl
  simp [Live.nothingToDo, cookies, and_assoc]

theorem foldl_mutation (m : Manager) (mem : Memory) (id : GoString) (row : Session)
    (cookies : List CookieMutation) (ctl : SessionControls)
    (same : ctl.cookies = cookies.map (Live.mutation m)) :
    (mem.commit id row ctl).getCookies id = cookies.foldl cookieAfter (mem.getCookies id) ∧
      (mem.commit id row ctl).cookieSHAs id =
        cookies.foldl (hashAfter m) (mem.cookieSHAs id) := by
  obtain ⟨cached, shas⟩ := Memory.commit_cookies mem id row ctl
  rw [cached, shas, same, List.foldl_map, List.foldl_map]
  refine ⟨rfl, List.foldl_ext _ _ _ fun map c _ => ?_⟩
  unfold Memory.mutate hashAfter Live.mutation
  cases c.delete <;> rfl

theorem committed_newProxyCookie {l : Live} (unpending : l.rewrite = false) (c : SessionControls)
    (ownerID : Option Int) (labels : Option (List GoString)) :
    (l.committed c ownerID labels).newProxyCookie = if c.rotate then some c.newKeyID else none := by
  split_ifs with rotate
  · exact committed_rotated rotate
  · rw [committed_still (eq_false_of_ne_true rotate), Live.newProxyCookie, unpending]
    rfl

end Controls

/-- A handle without a pending key, and the row that it stands for. -/
structure Response.Ready (r : Response) (row : Session) (mem : Memory) : Prop where
  wf : mem.WF
  found : mem.sessions.get r.live.sessionID = some row
  held : mem.keys.get r.live.keyID = some r.live.sessionID
  unpending : r.live.rewrite = false
  canonical : LabelString row.labels
  accessed : 0 ≤ row.lastAccess
  timely : 0 ≤ row.lastRotation ∧ row.lastRotation < 2 ^ 63

section Commit

variable {r : Response} {row : Session} {now : Int} {mem : Memory} (ready : r.Ready row mem)
  (plain : ∀ given, r.labels = some given → ∀ x ∈ given, IsLabel x)
  (clock : 0 ≤ now ∧ now < 2 ^ 63)

include ready plain clock

theorem controls_rotate_iff : (r.controls row now).rotate = true ↔ r.Swaps row now := by
  have owner : (r.ownerID.map (·.val)).any (· ≠ row.ownerID) = true ↔ r.NewOwner row :=
    @controls_setOwner_iff r row now
  have labels : r.labels.any (normalizeLabels · ≠ row.labels) = true ↔ r.NewLabels row :=
    @controls_setLabels_iff r row now ready.canonical plain
  simp only [Response.controls, Live.controls, ready.unpending, Bool.not_false, Bool.true_and,
    Bool.or_eq_true, Bool.and_eq_true, rotationDue_iff ready.timely clock, owner, labels]
  unfold Response.Swaps
  tauto

theorem controlled_becomes (key : GoString) :
    r.Becomes row now
      (Memory.controlled row { r.controls row now with newKeyID := key }) := by
  have owner := @controls_setOwner_iff r row now
  have labels := @controls_setLabels_iff r row now ready.canonical plain
  have rotate := controls_rotate_iff ready plain clock
  have access : (r.controls row now).lastAccess =
      if (r.controls row now).setOwner || (r.controls row now).setLabels || !r.cookies.isEmpty
      then now else 0 := rfl
  have rotation : (r.controls row now).lastRotation =
      if (r.controls row now).rotate then now else 0 := rfl
  have writes : ((r.controls row now).setOwner || (r.controls row now).setLabels ||
      !r.cookies.isEmpty) = true ↔ r.Writes row := by
    simp [owner, labels, Response.Writes, or_assoc]
  refine ⟨?_, ?_, ?_, ?_, ?_, ?_, ?_, rfl, rfl, rfl, rfl⟩
  · have asked : (r.controls row now).ownerID = (r.ownerID.map (·.val)).getD 0 := rfl
    simp only [Memory.controlled]
    split_ifs with changed
    · obtain ⟨o, given, -⟩ := owner.mp changed.1
      rw [asked, given]
      rfl
    · cases given : r.ownerID with
      | none => rfl
      | some o =>
          by_contra differs
          have new : o.val ≠ row.ownerID := Ne.symm differs
          exact changed ⟨owner.mpr ⟨o, given, new⟩, by rwa [asked, given]⟩
  · intro given asked x
    have stored : (r.controls row now).labels = normalizeLabels given := by
      simp [Response.controls, Live.controls, asked]
    simp only [Memory.controlled, stored]
    split_ifs with changed
    · exact mem_fields_normalizeLabels (plain given asked)
    · by_contra differs
      exact changed (labels.mpr ⟨given, asked, fun same => differs (same x).symm⟩)
  · intro unasked
    simp only [Memory.controlled]
    split_ifs with changed
    · obtain ⟨given, asked, -⟩ := labels.mp changed
      cases unasked.symm.trans asked
    · rfl
  · intro written
    simp only [Memory.controlled, access, writes.mpr written, if_true]
    rw [max_def]
    split_ifs <;> omega
  · intro unwritten
    simp only [Memory.controlled, access, eq_false_of_ne_true (mt writes.mp unwritten)]
    simp [ready.accessed]
  · intro swaps
    simp only [Memory.controlled, rotation, rotate.mpr swaps, if_true]
    rw [max_def]
    split_ifs <;> omega
  · intro unswapped
    simp only [Memory.controlled, rotation, eq_false_of_ne_true (mt rotate.mp unswapped)]
    simp [ready.timely.1]

theorem commit_meets {key : GoString}
    (free : (r.controls row now).rotate = true → mem.keys.get key = none) :
    r.Meets row now mem
      (mem.commit r.live.sessionID row { r.controls row now with newKeyID := key })
      (if (r.controls row now).rotate then some key else none) := by
  have rotate := controls_rotate_iff ready plain clock
  have positive : (r.controls row now).setOwner = true → 0 < (r.controls row now).ownerID := by
    intro set
    obtain ⟨owner, asked, -⟩ := controls_setOwner_iff.mp set
    simp [Response.controls, Live.controls, asked, owner.property]
  have wf' := ready.wf.commit (c := { r.controls row now with newKeyID := key }) ready.found ready.held
    positive
  refine ⟨?_, ?_, ?_, ?_, ?_, ?_, ?_, ?_⟩
  · rw [← rotate]
    split_ifs with rotates <;> simp [rotates]
  · intro key' reported
    split_ifs at reported with rotates
    cases reported
    exact free rotates
  · intro k
    rw [Memory.commit_keys]
    have old : (r.controls row now).oldKeyID = r.live.keyID := rfl
    simp only [old]
    split_ifs with rotates
    · have other : r.live.keyID ≠ key := by
        rintro same
        have held := ready.held
        rw [same, free rotates] at held
        cases held
      rw [GoMap.get_delete, GoMap.get_set, Option.getD_some]
      split_ifs with old new
      · simp [old, other]
      · simp [new]
      · exact ⟨fun mapped => absurd (ready.wf.keyUnique mapped ready.held) old, fun same => absurd same new⟩
    · exact ⟨fun mapped => ready.wf.keyUnique mapped ready.held, fun same => same ▸ ready.held⟩
  · have kept : (mem.commit r.live.sessionID row
        { r.controls row now with newKeyID := key }).sessions.get r.live.sessionID =
        some (Memory.controlled row { r.controls row now with newKeyID := key }) := by
      rw [Memory.commit_sessions, GoMap.get_set_self]
    refine ⟨_, kept, controlled_becomes ready plain clock key,
      fun o => ?_⟩
    rw [wf'.indexed, kept]
    simp
  · exact (foldl_mutation r.manager mem _ row r.cookies _ rfl).1
  · exact (foldl_mutation r.manager mem _ row r.cookies _ rfl).2
  · intro s other
    exact Memory.commit_other ready.held free other
  · exact Memory.commit_locks mem _ _ _

theorem idle_meets (idle : Live.nothingToDo (r.controls row now) = true) :
    r.Meets row now mem mem none := by
  obtain ⟨owner, labels, still, none⟩ := nothingToDo_iff.mp idle
  have rotate := controls_rotate_iff ready plain clock
  have same : Memory.controlled row (r.controls row now) = row := by
    have access : (r.controls row now).lastAccess = 0 := by
      have spelled : (r.controls row now).lastAccess = if (r.controls row now).setOwner ||
        (r.controls row now).setLabels || !r.cookies.isEmpty then now else 0 := rfl
      simp [spelled, owner, labels, none]
    have rotation : (r.controls row now).lastRotation = 0 := by
      have spelled : (r.controls row now).lastRotation =
        if (r.controls row now).rotate then now else 0 := rfl
      simp [spelled, still]
    simp [Memory.controlled, owner, labels, access, rotation, ready.accessed.not_gt,
      ready.timely.1.not_gt]
  have becomes : r.Becomes row now (Memory.controlled row (r.controls row now)) :=
    controlled_becomes ready plain clock r.live.keyID
  rw [same] at becomes
  refine ⟨?_, fun _ reported => (by cases reported), fun k => ?_, ⟨row, ready.found, becomes, fun o => ?_⟩,
    by simp [none], by simp [none], fun s _ => .refl mem s, rfl⟩
  · rw [← rotate, still]
    simp
  · exact ⟨fun mapped => ready.wf.keyUnique mapped ready.held, fun same => same ▸ ready.held⟩
  · rw [ready.wf.indexed, ready.found]
    simp

theorem eval_meets {past : History} {buf : List UInt8} (reading : past.findSome? Deed.clock = some now)
    (drawn : past.findSome? Deed.random = some buf)
    (free : mem.keys.get (encodeToString buf) = none) : ∃ live' mem',
      r.prog.eval (alone past) mem = ((.ok (), live'), mem') ∧
      r.Meets row now mem mem' live'.newProxyCookie := by
  cases idle : Live.nothingToDo (r.controls row now) with
  | true =>
      have unreported : (r.live.applied (r.ownerID.map (·.val)) r.labels).newProxyCookie = none := by
        simp [Live.newProxyCookie, Live.applied, ready.unpending]
      refine ⟨_, mem, eval_idle reading ready.found idle, ?_⟩
      rw [unreported]
      exact idle_meets ready plain clock idle
  | false =>
      cases rotate : (r.controls row now).rotate with
      | true =>
          refine ⟨_, _, eval_rotate reading ready.found drawn idle rotate
            (Memory.applySessionControls_ok ready.found ready.held fun _ => free), ?_⟩
          rw [committed_newProxyCookie ready.unpending]
          exact commit_meets ready plain clock fun _ => free
      | false =>
          have still : ¬ (r.controls row now).rotate = true := ne_true_of_eq_false rotate
          refine ⟨_, _, eval_commit reading ready.found idle rotate
            (Memory.applySessionControls_ok ready.found ready.held fun turns => absurd turns still), ?_⟩
          rw [committed_newProxyCookie ready.unpending]
          exact commit_meets ready plain clock fun turns => absurd turns still

end Commit

theorem eval_resolve {m : Manager} {keyID : GoString} {past : History} {now : Int}
    (clock : past.findSome? Deed.clock = some now) {mem₀ mem : Memory} {l : Live}
    (resolved : (m.resolve keyID).eval (alone past) mem₀ = (.ok (some l), mem)) :
    ∃ row, mem₀.sessions.get l.sessionID = some row ∧ mem₀.keys.get keyID = some l.sessionID ∧
      l.keyID = keyID ∧ l.rewrite = false ∧
      mem₀.touchSession l.sessionID keyID now (m.slide row now).lastRotation = (.ok (), mem) := by
  unfold Manager.resolve at resolved
  simp only [callStore, act, Prog.perform_bind, Prog.eval, alone, Memory.perform,
    Memory.getKey] at resolved
  cases held : mem₀.keys.get keyID with
  | none => simp [held, Prog.eval] at resolved
  | some sid =>
      simp only [held, Prog.eval, alone, Memory.perform, Memory.getSession] at resolved
      cases found : mem₀.sessions.get sid with
      | none => simp [found, Prog.eval] at resolved
      | some row =>
          simp only [found, Prog.eval, alone, clock, Option.getD_some] at resolved
          by_cases gone : Manager.expired row now = true
          · simp [if_pos gone, Prog.eval] at resolved
          · simp only [if_neg gone, Prog.eval, alone, Memory.perform, Memory.touchSession, found, held,
              ne_eq, not_true_eq_false, if_false] at resolved
            cases resolved
            refine ⟨row, found, rfl, rfl, rfl, ?_⟩
            simp [Memory.touchSession, found, held, clock, Manager.slide]

theorem ready_of_resolved {r : Response} {mem₀ mem : Memory} (wf : mem₀.WF)
    (canonical : ∀ {s row}, mem₀.sessions.get s = some row → LabelString row.labels)
    (stored : ∀ s row, mem₀.sessions.get s = some row → row.lastRotation < 2 ^ 63)
    {keyID : GoString} {past : History} {now : Int} (clock : past.findSome? Deed.clock = some now)
    (range : 0 ≤ now ∧ now < 2 ^ 63)
    (resolved : (r.manager.resolve keyID).eval (alone past) mem₀ = (.ok (some r.live), mem)) :
    mem.keys = mem₀.keys ∧ ∃ row, r.Ready row mem := by
  obtain ⟨row, found, held, rfl, unpending, touched⟩ := eval_resolve clock resolved
  have timely := wf.timely found
  have rotation := stored _ _ found
  have kept : mem.WF := by
    have kept := wf.perform (c := .touchSession r.live.sessionID r.live.keyID now
      (r.manager.slide row now).lastRotation 0) (slide_lastRotation r.manager timely range.1)
    rwa [Memory.perform, touched] at kept
  simp only [Memory.touchSession, found, held, ne_eq, not_true_eq_false, if_false, Prod.mk.injEq,
    true_and] at touched
  subst touched
  refine ⟨rfl, _, kept, GoMap.get_set_self _ _ _, held, unpending, ?_, ?_, ?_⟩
  · show LabelString row.labels
    exact canonical found
  · simp only [Memory.touched]
    split_ifs <;> omega
  · simp only [Memory.touched, Manager.slide]
    split_ifs <;> omega

/-- `ApplyResponse` on a handle that `Resolve` has just returned. -/
theorem applyResponse_meets_specification (job : Nat → Job) {c : Machine Outcome}
    (run : (jobs job).Reaches idle c)
    (labelled : ∀ t given, (job t).op.asksLabels = some given → ∀ x ∈ given, IsLabel x)
    (stored : ∀ s row, c.state.mem.sessions.get s = some row → row.lastRotation < 2 ^ 63)
    (r : Response) (keyID : GoString) (before : Int) (earlier : 0 ≤ before ∧ before < 2 ^ 63)
    {mem : Memory}
    (resolved : (r.manager.resolve keyID).eval (alone [⟨.now, before⟩]) c.state.mem =
      (.ok (some r.live), mem))
    (plain : ∀ given, r.labels = some given → ∀ x ∈ given, IsLabel x)
    (now : Int) (clock : 0 ≤ now ∧ now < 2 ^ 63) (buf : List UInt8)
    (fresh : encodeToString buf ∉ c.state.minted) :
    ∃ row live' mem', mem.sessions.get r.live.sessionID = some row ∧
      r.prog.eval (alone [⟨.now, now⟩, ⟨.randomRead, some buf⟩]) mem = ((.ok (), live'), mem') ∧
      r.Meets row now mem mem' live'.newProxyCookie := by
  have inv := (jobs_good run).inv
  have labels := jobs_stocking (L := LabelString) ⟨[], List.forall_mem_nil _, rfl⟩
    (fun t given asked => ⟨given, labelled t given asked, rfl⟩) run
  obtain ⟨keys, row, ready⟩ := ready_of_resolved inv.wf labels.stocked.labels stored rfl earlier
    resolved
  have free : mem.keys.get (encodeToString buf) = none := by
    rw [keys]
    by_contra taken
    obtain ⟨t, used⟩ := inv.keyUsed taken
    exact fresh (mem_minted.mpr ⟨t, inv.settled t _ (.inl used)⟩)
  have reading : ([⟨.now, now⟩, ⟨.randomRead, some buf⟩] : History).findSome? Deed.clock = some now :=
    rfl
  obtain ⟨live', mem', done, meets⟩ := eval_meets ready plain clock reading rfl free
  exact ⟨row, live', mem', ready.found, done, meets⟩

def sampleLoginResponse (live : Live) : Response where
  manager := sampleManager
  live
  ownerID := some sampleOwner
  labels := some [lit "staff"]
  forceRotate := false
  cookies := [{ name := lit "sid", value := lit "secret" }]

def sampleResolved (mem : Memory) : Option (Live × Memory) :=
  match (sampleManager.resolve sampleKey).eval (alone [⟨.now, 110⟩]) mem with
  | (.ok (some live), mem) => some (live, mem)
  | _ => none

theorem sampleResolved_eq {mem mem' : Memory} {live : Live}
    (resolved : sampleResolved mem = some (live, mem')) :
    (sampleManager.resolve sampleKey).eval (alone [⟨.now, 110⟩]) mem = (.ok (some live), mem') := by
  unfold sampleResolved at resolved
  split at resolved
  · cases resolved
    assumption
  · cases resolved

theorem sample_login_meets_specification : ∃ c live mem row live' mem',
    (jobs (sampleJobs fun _ => .begin)).Reaches idle c ∧
    (sampleManager.resolve sampleKey).eval (alone [⟨.now, 110⟩]) c.state.mem =
      (.ok (some live), mem) ∧
    (sampleLoginResponse live).prog.eval
      (alone [⟨.now, 120⟩, ⟨.randomRead, some (List.replicate 32 2)⟩]) mem = ((.ok (), live'), mem') ∧
    (sampleLoginResponse live).Meets row 120 mem mem' live'.newProxyCookie := by
  have played : (play anyFaults (fun _ _ => true) (jobs (sampleJobs fun _ => .begin)).prog idle
      beginMoves).any fun c => (sampleResolved c.state.mem).isSome &&
        c.state.mem.sessions.entries.all (fun e => decide (e.2.lastRotation < 2 ^ 63)) &&
        decide (encodeToString (List.replicate 32 2) ∉ c.state.minted) := by
    decide +kernel
  obtain ⟨c, run, -, checked⟩ := reaches_of_played (fun _ => trivial) played
  simp only [Bool.and_eq_true, Option.isSome_iff_exists, List.all_eq_true, decide_eq_true_eq] at checked
  obtain ⟨⟨⟨⟨live, mem⟩, resolved⟩, stored⟩, fresh⟩ := checked
  have resolved := sampleResolved_eq resolved
  have unlabelled : ∀ t given, (sampleJobs (fun _ => .begin) t).op.asksLabels = some given →
      ∀ x ∈ given, IsLabel x := by
    intro t given asked
    cases t <;> cases asked
  have staff : IsLabel (lit "staff") := isLabel_of_mem_splitLabels (s := lit "staff") (by decide)
  obtain ⟨row, live', mem', -, done, meets⟩ := applyResponse_meets_specification _ run unlabelled
    (fun s row found => stored (s, row) (GoMap.mem_entries.mpr found)) (sampleLoginResponse live)
    sampleKey 110 (by decide) resolved (by
      rintro given ⟨⟩
      simpa using staff) 120 (by decide) _ fresh
  exact ⟨c, live, mem, row, live', mem', run, resolved, done, meets⟩

end Session

end Gosestor
