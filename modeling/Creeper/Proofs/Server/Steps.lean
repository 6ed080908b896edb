/-
What a thread of the server can do.

`WorkerDoes` has one line for each thing a thread can do at a point: the
call, the answer, what is shared after it and the next point. A step of
the server is one of these and changes nothing else
(`WorkerStep.does`), so what a step preserves is shown by going through
the lines.

What the server can do is shown by one thread that goes by itself from
`run()` back to it (`Run.of_goes`).
-/
import Creeper.AsyncServer
import Creeper.Lib.Solo

namespace Creeper

open Lib

variable {C : Type} {R : C → Type} {ι π σ : Type}

/-- From a point, by an answered call, to what is shared then and the
next point. -/
inductive WorkerDoes (app : App C R π) (below : Service C R σ)
    (io : IoService) (t : σ) :
    WorkerPoint π → Answer (ServerCall C) (ServerCall.Reply R) →
      IoService × σ → WorkerPoint π → Prop
  | reacts {io' : IoService} (h : io.Reacts io') :
      WorkerDoes app below io t .run ⟨.run, .reacted⟩ (io', t) .run
  | takes {before after : List Operation} {completion : Completion}
      (h : io.operations = before ++ .ready completion :: after) :
      WorkerDoes app below io t .run ⟨.run, .handler completion⟩
        ({ io with operations := before ++ after }, t) completion.handler
  | returns (h : io.work = 0) :
      WorkerDoes app below io t .run ⟨.run, .stopped⟩ (io, t) .returned
  | endpoint {session : Nat} :
      WorkerDoes app below io t (.handleAccept session)
        ⟨.acceptedEndpoint session, true⟩ (io, t) (.start session)
  | noEndpoint {session : Nat} :
      WorkerDoes app below io t (.handleAccept session)
        ⟨.acceptedEndpoint session, false⟩ (io, t) (.finished true)
  | starts {session : Nat} :
      WorkerDoes app below io t (.start session)
        ⟨.asyncReadSome session, ()⟩ (io.initiate (.readSome session), t)
        .startAccept
  | makes :
      WorkerDoes app below io t .startAccept ⟨.makeSession, io.made⟩
        ({ io with made := io.made + 1 }, t) (.asyncAccept io.made)
  | accepts {session : Nat} :
      WorkerDoes app below io t (.asyncAccept session)
        ⟨.asyncAccept session, ()⟩ (io.initiate (.accept session), t)
        (.finished false)
  | reads {session n : Nat} :
      WorkerDoes app below io t (.handleRead session n)
        ⟨.data session n, (io.buffer session).data.take n⟩ (io, t)
        (app.proceed session ((io.buffer session).data.take n)
          (app.enter ((io.buffer session).data.take n)))
  | app {session : Nat} {requestMsg : Str} {p : π} {c : C} {next : R c → π}
      {r : R c} {t' : σ} (hcode : app.code p = some ⟨c, next⟩)
      (h : below c t r t') :
      WorkerDoes app below io t (.handling session requestMsg p)
        ⟨.app c, r⟩ (io, t') (app.proceed session requestMsg (next r))
  | logs {session : Nat} {responseMsg : Str} :
      WorkerDoes app below io t (.logging session responseMsg)
        ⟨.loggedEndpoint session, true⟩ (io, t)
        (.asyncWrite session responseMsg)
  | cannotLog {session : Nat} {responseMsg : Str} :
      WorkerDoes app below io t (.logging session responseMsg)
        ⟨.loggedEndpoint session, false⟩ (io, t) (.finished true)
  | writes {session : Nat} {responseMsg : Str} :
      WorkerDoes app below io t (.asyncWrite session responseMsg)
        ⟨.asyncWrite session responseMsg, ()⟩
        ((io.send session responseMsg).initiate
          (.write session responseMsg), t) (.finished false)
  | readsOn {session : Nat} :
      WorkerDoes app below io t (.handleWrite session)
        ⟨.asyncReadSome session, ()⟩ (io.initiate (.readSome session), t)
        (.finished false)
  | throws :
      WorkerDoes app below io t (.finished true) ⟨.workFinished true, ()⟩
        ({ io with work := io.work - 1 }, t) .exited
  | finishes :
      WorkerDoes app below io t (.finished false) ⟨.workFinished false, ()⟩
        ({ io with work := io.work - 1 }, t) .run

/-- A step is what one thread does. -/
theorem WorkerStep.does [DecidableEq ι] {app : App C R π}
    {below : Service C R σ} {io : IoService} {t : σ}
    {point : ι → WorkerPoint π} {next : Workers ι π σ} {e : WorkerEvent ι C R}
    (h : WorkerStep app below ⟨(io, t), point⟩ e next) :
    ∃ x q, WorkerDoes app below io t (point e.1) e.2 x q
      ∧ next = ⟨x, Function.update point e.1 q⟩ := by
  cases h with
  | @call i c k r x hcode hserves =>
  refine ⟨x, k r, ?_, rfl⟩
  change workerCode app (point i) = some ⟨c, k⟩ at hcode
  change ServerServes below c (io, t) r x at hserves
  show WorkerDoes app below io t (point i) ⟨c, r⟩ x (k r)
  generalize point i = p at hcode ⊢
  cases p with
  | run =>
      cases hcode
      cases hserves with
      | reacted h => exact .reacts h
      | handler h => exact .takes h
      | stopped h => exact .returns h
  | handleAccept session =>
      cases hcode
      cases hserves with
      | acceptedEndpoint =>
          cases r with
          | true => exact .endpoint
          | false => exact .noEndpoint
  | start session =>
      cases hcode
      cases hserves with
      | asyncReadSome => exact .starts
  | startAccept =>
      cases hcode
      cases hserves with
      | makeSession => exact .makes
  | asyncAccept session =>
      cases hcode
      cases hserves with
      | asyncAccept => exact .accepts
  | handleRead session n =>
      cases hcode
      cases hserves with
      | data => exact .reads
  | handling session requestMsg p =>
      obtain ⟨⟨c', next⟩, hown, heq⟩ := Option.map_eq_some_iff.mp hcode
      cases heq
      cases hserves with
      | app h => exact .app hown h
  | logging session responseMsg =>
      cases hcode
      cases hserves with
      | loggedEndpoint =>
          cases r with
          | true => exact .logs
          | false => exact .cannotLog
  | asyncWrite session responseMsg =>
      cases hcode
      cases hserves with
      | asyncWrite => exact .writes
  | handleWrite session =>
      cases hcode
      cases hserves with
      | asyncReadSome => exact .readsOn
  | finished threw =>
      cases hcode
      cases hserves with
      | workFinished =>
          cases threw with
          | true => exact .throws
          | false => exact .finishes
  | exited => cases hcode
  | returned => cases hcode

-- ================================================================ one thread

section

variable {app : App C R π} {below : Service C R σ} {io : IoService}
  {t t' : σ} {session : Nat}

/-- A thread by itself accepts a connection, whose session then reads. -/
theorem accepts_goes (app : App C R π) (below : Service C R σ) (t : σ)
    (haccept : .accept session ∈ io.operations) :
    ∃ io', Goes (workerCode app) (ServerServes below) (fun _ => True)
        ((io, t), .run) ((io', t), .run)
      ∧ .readSome session ∈ io'.operations
      ∧ io'.connection = io.connection := by
  obtain ⟨before, after, hoperations⟩ := List.append_of_mem haccept
  refine ⟨{ io with
    operations := ((before ++ after) ++ [.readSome session])
      ++ [.accept io.made]
    work := io.work + 1, made := io.made + 1 }, ?_, ?_, rfl⟩
  · refine .call rfl (.reacted
      (@IoService.Reacts.accepted _ _ _ _ true hoperations)) trivial ?_
    refine .call rfl (.handler rfl) trivial ?_
    refine .call (r := true) rfl .acceptedEndpoint trivial ?_
    refine .call rfl .asyncReadSome trivial ?_
    refine .call rfl .makeSession trivial ?_
    refine .call rfl .asyncAccept trivial ?_
    refine .call rfl .workFinished trivial ?_
    exact .refl _
  · simp

variable [DecidableEq ι] {now : Workers ι π σ} {i : ι}

/-- What a thread in `run()` can do by itself, coming back to it, the
server can do, the other threads staying where they are. -/
theorem Run.of_goes {io' : IoService} (hthread : now.point i = .run)
    (h : Goes (workerCode app) (ServerServes below) (fun _ => True)
      (now.shared, .run) ((io', t'), .run)) :
    ∃ es, Run (WorkerStep app below) now es ⟨(io', t'), now.point⟩
      ∧ ∀ e ∈ es, e.1 = i := by
  obtain ⟨as, hrun, -⟩ := h
  have hall := hrun.of_solo now.point i
  have hi : Function.update now.point i .run = now.point := by
    rw [← hthread]
    exact Function.update_eq_self ..
  rw [hi] at hall
  refine ⟨_, hall, ?_⟩
  rw [List.forall_mem_map]
  exact fun _ _ => rfl

/-- The first connection of a server is accepted. -/
theorem accepted_run (app : App C R π) (below : Service C R σ) (i : ι)
    (buffer : Nat → Buffer) (t : σ) :
    ∃ es, ∃ now : Workers ι π σ,
      Run (WorkerStep app below) (serverStart buffer t) es now
      ∧ (∀ j, now.point j = .run)
      ∧ .readSome 0 ∈ now.shared.1.operations := by
  have haccept : .accept 0
      ∈ (serverStart (ι := ι) (π := π) buffer t).shared.1.operations :=
    List.mem_singleton_self _
  obtain ⟨io', hgoes, hreading, -⟩ := accepts_goes app below t haccept
  obtain ⟨es, hrun, -⟩ := Run.of_goes (i := i) rfl hgoes
  exact ⟨es, _, hrun, fun _ => rfl, hreading⟩

end

end Creeper
