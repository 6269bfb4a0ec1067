import Gosestor.Proof.Handler.Blocks

/-!
# The dealings of a downstream handler

A downstream handler deals with the interceptor call by call. A run of `forward` splits into these
dealings and what `ServeHTTP` does after them, so a fact about all call patterns is proved for one
dealing and carried along the list.
-/

namespace Gosestor

open Gosestor.Go Gosestor.Lib Gosestor.Session

/-- One call of the downstream handler, with the interceptor before and after it and what the call
did, newest first. -/
structure Dealing where
  before : Interceptor
  call : DownCall
  after : Interceptor
  deeds : History

/-- The call committed a handshake: it came as far as the flush or the takeover that ends one. -/
def Dealing.commits (d : Dealing) : Bool :=
  match d.call with
  | .hijack => d.deeds.any Deed.isHandshake
  | .flushError => !d.before.terminal && d.deeds.any Deed.isHandshake
  | _ => false

/-- What the downstream handler has made of an empty header map since it committed a handshake. -/
def sinceHandshake (dealings : List Dealing) : Option Header :=
  dealings.foldl (fun made d => if d.commits then some ∅ else made.map d.call.change) none

theorem sinceHandshake_append (dealings : List Dealing) (d : Dealing) :
    sinceHandshake (dealings ++ [d]) =
      if d.commits then some ∅ else (sinceHandshake dealings).map d.call.change := by
  simp [sinceHandshake]

namespace Handler

variable (h : Handler) (conn : Conn)

/-- The calls of a downstream handler in one run of it, in their order. After a call it goes on with
the answer, or it has panicked. -/
inductive Dealt : Except Panic Down → Interceptor → Incoming → History → List Dealing → Ended →
    Interceptor → History → Prop
  | panicked (p : Panic) (ic : Interceptor) (r : Incoming) (past : History) :
      Dealt (.error p) ic r past [] (.panicked p) ic past
  | returned (err : Option Err) (ic : Interceptor) (r : Incoming) (past : History) :
      Dealt (.ok (.ret err)) ic r past [] (.returned err) ic past
  | call {c : DownCall} {next : c.Answer → Down} {ic ic₁ ic₂ : Interceptor} {r r₁ : Incoming}
      {past new past₂ : History} {answer : Except Panic c.Answer} {dealings : List Dealing}
      {ended : Ended}
      (served : Prog.Run History.step (serveCall h conn c ic r) past (answer, ic₁, r₁)
        (new ++ past))
      (rest : Dealt (answer.map next) ic₁ r₁ (new ++ past) dealings ended ic₂ past₂) :
      Dealt (.ok (.call c next)) ic r past (⟨ic, c, ic₁, new⟩ :: dealings) ended ic₂ past₂

/-- What `ServeHTTP` does after the downstream handler, which left `ic`. -/
inductive Leaves (ic : Interceptor) (past : History) : Ended → Ended → Writer → History → Prop
  | panicked {p : Panic} {closed : Option Err × StagedBody} {past' : History}
      (close : Prog.Run History.step ic.body.close past closed past') :
      Leaves ic past (.panicked p) (.panicked p) ic.w past'
  | returned {err err' : Option Err} {ic' : Interceptor} {closed : Option Err × StagedBody}
      {past₁ past' : History}
      (concludes : Prog.Run History.step (conclude h ic err)
        (⟨.returned err ic.responseHeader, ()⟩ :: past) (err', ic') past₁)
      (close : Prog.Run History.step ic'.body.close past₁ closed past') :
      Leaves ic past (.returned err) (.returned err') ic'.w past'

variable {h conn}

theorem dealt_of_runNext {next : Down} {ic ic' : Interceptor} {r : Incoming} {past past' : History}
    {ended : Ended}
    (run : Prog.Run History.step (runNext h conn next ic r) past (ended, ic') past') :
    ∃ dealings, Dealt h conn (.ok next) ic r past dealings ended ic' past' := by
  induction next generalizing ic r past with
  | ret err =>
      cases run
      exact ⟨[], .returned err _ _ _⟩
  | call c next ih =>
      rw [runNext] at run
      obtain ⟨⟨answer, ic₁, r₁⟩, past₁, served, rest⟩ := run.split
      obtain ⟨new, rfl⟩ := run_extends served
      cases answer with
      | error p =>
          cases rest
          exact ⟨_, .call served (.panicked p _ _ _)⟩
      | ok answer =>
          obtain ⟨dealings, dealt⟩ := ih answer rest
          exact ⟨_, .call served dealt⟩

theorem Dealt.runNext {next : Down} {ic ic' : Interceptor} {r : Incoming} {past past' : History}
    {dealings : List Dealing} {ended : Ended}
    (dealt : Dealt h conn (.ok next) ic r past dealings ended ic' past') :
    Prog.Run History.step (runNext h conn next ic r) past (ended, ic') past' := by
  induction next generalizing ic r past dealings with
  | ret err =>
      cases dealt
      exact .ret _ _
  | call c next ih =>
      cases dealt with
      | @call _ _ _ ic₁ _ _ r₁ _ new _ answer dealings _ served rest =>
          rw [Handler.runNext]
          refine served.bind ?_
          cases answer with
          | error p =>
              cases rest
              exact .ret _ _
          | ok answer => exact ih answer rest

/-- An invariant of the interceptor and the calls so far, shown for a call that keeps `P`, holds before
every call of a handler that sets only `P`. -/
theorem Dealt.before {next : Except Panic Down} {ic ic' : Interceptor} {r : Incoming}
    {past past' : History} {dealings : List Dealing} {ended : Ended}
    (dealt : Dealt h conn next ic r past dealings ended ic' past') {P : Header → Prop}
    (sets : ∀ down, next = .ok down → SetsOnly P down) {I : List Dealing → Interceptor → Prop}
    (step : ∀ {front c ic r past answer ic₁ r₁ new}, (∀ hdr, P hdr → P (c.change hdr)) →
      Prog.Run History.step (serveCall h conn c ic r) past (answer, ic₁, r₁) (new ++ past) →
      I front ic → I (front ++ [⟨ic, c, ic₁, new⟩]) ic₁)
    {front early later : List Dealing} {d : Dealing} (start : I front ic)
    (split : dealings = early ++ d :: later) : I (front ++ early) d.before := by
  induction dealt generalizing front early with
  | panicked | returned => cases early <;> cases split
  | @call c next _ _ _ _ _ _ _ _ answer _ _ served rest ih =>
      obtain ⟨keeps, setsRest⟩ := sets _ rfl
      cases early with
      | nil =>
          cases split
          rwa [List.append_nil]
      | cons first early =>
          cases split
          rw [List.append_cons]
          refine ih (fun down same => ?_) (step keeps served start) rfl
          cases answer with
          | error p => cases same
          | ok answer =>
              cases same
              exact setsRest answer

/-- The interceptor that the downstream handler gets. -/
def opened (w : Writer) (p : Presented) : Interceptor where
  w
  live := p.live
  hadProxyCookie := p.hadProxyCookie
  resolveErr := p.resolveErr
  responseHeader := w.header

def upstream (h : Handler) (r : Request) (p : Presented) : Request :=
  h.prepareUpstreamCookies r ((p.live.map Live.cookies).getD ∅)

/-- The body that the backend reads. -/
def incoming (h : Handler) (r : Request) : Incoming :=
  ⟨r.trailer, r.body.getD [], if r.body.isSome && r.trailer.isSome then h.managedHeaders else []⟩

variable (h conn) in
/-- The downstream handler made the calls `dealings` in the run of `forward` from `before` to `past`,
and left `ic`. -/
def Deals (w : Writer) (r : Request) (p : Presented) (next : Request → Down)
    (before past : History) (dealings : List Dealing) (ic : Interceptor) : Prop :=
  ∃ ended mid, mid <:+ past ∧
    Dealt h conn (.ok (next (h.upstream r p))) (opened w p) (h.incoming r)
      (⟨.next (h.upstream r p), ()⟩ :: before) dealings ended ic mid

section Deals

variable {w : Writer} {r : Request} {p : Presented} {next : Request → Down}
  {first past : History} {dealings : List Dealing} {ic : Interceptor}
  (deals : Deals h conn w r p next first past dealings ic)

include deals

theorem Deals.before {P : Header → Prop} (sets : ∀ r, SetsOnly P (next r))
    {I : List Dealing → Interceptor → Prop}
    (step : ∀ {front c ic r past answer ic₁ r₁ new}, (∀ hdr, P hdr → P (c.change hdr)) →
      Prog.Run History.step (serveCall h conn c ic r) past (answer, ic₁, r₁) (new ++ past) →
      I front ic → I (front ++ [⟨ic, c, ic₁, new⟩]) ic₁)
    {early later : List Dealing} {d : Dealing} (start : I [] (opened w p))
    (split : dealings = early ++ d :: later) : I early d.before := by
  obtain ⟨left, mid, -, dealt⟩ := deals
  refine dealt.before (P := P) (fun down same => ?_) step start split
  cases same
  exact sets _

/-- A downstream handler that sets only `P` has made a header with `P` since each handshake. -/
theorem Deals.since {P : Header → Prop} (sets : ∀ r, SetsOnly P (next r)) (empty : P ∅)
    {early later : List Dealing} {d : Dealing} (split : dealings = early ++ d :: later)
    {made : Header} (since : sinceHandshake early = some made) : P made := by
  refine deals.before sets (I := fun front _ => ∀ made, sinceHandshake front = some made → P made)
    ?_ (fun made never => by cases never) split made since
  intro front c ic r past answer ic₁ r₁ new keeps _ earlier made since
  rw [sinceHandshake_append] at since
  split_ifs at since with commits
  · cases since
    exact empty
  · obtain ⟨last, found, rfl⟩ := Option.map_eq_some_iff.mp since
    exact keeps last (earlier last found)

theorem Deals.asked : ⟨.next (h.upstream r p), ()⟩ :: first <:+ past := by
  obtain ⟨left, mid, begins, dealt⟩ := deals
  exact (run_suffix dealt.runNext).trans begins

end Deals

section Forward

variable {w w' : Writer} {r : Request} {p : Presented} {next : Request → Down}
  {before past : History} {ended : Ended}
  (run : Prog.Run History.step (h.forward conn w r p next) before (ended, w') past)

include run

theorem forward_split : ∃ left ic mid,
    Prog.Run History.step (runNext h conn (next (h.upstream r p)) (opened w p) (h.incoming r))
      (⟨.next (h.upstream r p), ()⟩ :: before) (left, ic) mid ∧
    Leaves h ic mid left ended w' past := by
  obtain ⟨_, -, run⟩ := run_act run
  obtain ⟨⟨left, ic⟩, mid, ran, rest⟩ := run.split
  refine ⟨left, ic, mid, ran, ?_⟩
  cases left with
  | panicked panic =>
      obtain ⟨closed, past', close, done⟩ := rest.split
      cases done
      exact .panicked close
  | returned err =>
      obtain ⟨_, -, rest⟩ := run_act rest
      obtain ⟨⟨err', ic'⟩, past₁, concludes, rest⟩ := rest.split
      obtain ⟨closed, past', close, done⟩ := rest.split
      cases done
      exact .returned concludes close

omit run in
theorem Leaves.suffix {ic : Interceptor} {mid : History} {left : Ended}
    (leaves : Leaves h ic mid left ended w' past) : mid <:+ past := by
  cases leaves with
  | panicked close => exact run_suffix close
  | returned concludes close =>
      exact ((List.suffix_cons _ _).trans (run_suffix concludes)).trans (run_suffix close)

theorem forward_deals : ∃ dealings ic, Deals h conn w r p next before past dealings ic := by
  obtain ⟨left, ic, mid, ran, leaves⟩ := forward_split run
  obtain ⟨dealings, dealt⟩ := dealt_of_runNext ran
  exact ⟨dealings, ic, left, mid, leaves.suffix, dealt⟩

/-- Whatever dealings a run of `forward` has, `ServeHTTP` goes on from what they left. -/
theorem forward_leaves {dealings : List Dealing} {ic : Interceptor} {whole : History}
    (deals : Deals h conn w r p next before whole dealings ic) (begins : past <:+ whole) :
    ∃ left mid,
    Dealt h conn (.ok (next (h.upstream r p))) (opened w p) (h.incoming r)
      (⟨.next (h.upstream r p), ()⟩ :: before) dealings left ic mid ∧
    Leaves h ic mid left ended w' past := by
  obtain ⟨left, mid, suffix, dealt⟩ := deals
  obtain ⟨left', ic', mid', ran, leaves⟩ := forward_split run
  obtain ⟨same, rfl⟩ := run_determined dealt.runNext ran suffix (leaves.suffix.trans begins)
  cases same
  exact ⟨left, mid, dealt, leaves⟩

end Forward

end Handler

/-- The calls of the downstream handler in a run of the exchange that led to `past`. -/
def Exchange.Deals (x : Exchange) (past : History) (dealings : List Dealing) (ic : Interceptor) :
    Prop :=
  ∃ p before, Prog.Run History.step (x.handler.resolvePresented x.stripped) [] (.ok p) before ∧
    x.handler.Deals x.conn { header := x.outer } x.stripped p x.next before past dealings ic

/-- Staging and sending succeed, nothing else does. -/
def strandedAnswer : (c : Call) → c.Answer
  | .store _ => .error .fault
  | .now | .wallClock => 0
  | .randomRead => none
  | .reserve _ | .removeTemp => true
  | .release _ | .next _ | .returned _ _ | .trip _ | .processed _ | .writeHeader _ _ => ()
  | .createTemp | .fileSeek | .fileClose => none
  | .fileWrite p | .write p => (p.length, none)
  | .fileCopy remaining => (remaining, none)
  | .flush | .hijack => some .io

def stranded (c : Call) (past : History) : c.Answer × History :=
  (strandedAnswer c, ⟨c, strandedAnswer c⟩ :: past)

theorem stranded_run {α : Type} (p : Act α) :
    Prog.Run History.step p [] (p.eval stranded []).1 (p.eval stranded []).2 := by
  refine Prog.Run.of_eval (fun past c => ⟨?_, rfl⟩) p []
  cases c with
  | now | wallClock => exact le_rfl
  | fileWrite p | write p => exact ⟨le_rfl, fun less => absurd less (lt_irrefl _)⟩
  | fileCopy remaining => exact le_rfl
  | store c => cases c <;> trivial
  | _ => trivial

end Gosestor
