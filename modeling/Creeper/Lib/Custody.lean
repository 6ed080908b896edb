/-
What is known of the connections of a pool, by who has them.

A connection has a status of its own, and all of them act on something
common. What is known of a connection in the queue is `Q`, and what is
known of a piece of code, its connection and the common part is `J`;
`Custody` is both, for everything at once. Since no connection is in two
places, a command changes the status of a connection only under the eyes
of the one who holds it. So it is enough to look at one piece of code
with its own connection (`Custody.Rule`): it takes over `Q` with a
connection, keeps `J` at each command, gives `Q` back, and leaves what
the others know of the common part as true as it was.
-/
import Creeper.Lib.Pool

namespace Creeper.Lib

variable {ι κ C π σ s τ : Type} {R : C → Type}

/-- What is known of the queued connections, and of each piece of code
and the connection it holds. -/
structure Custody (held : π → Option κ) (status : σ → κ → s) (common : σ → τ)
    (Q : κ → s → τ → Prop) (J : ι → π → Option s → τ → Prop)
    (now : Running ι π (Pool κ σ)) : Prop where
  queued : ∀ conn ∈ now.shared.queue,
    Q conn (status now.shared.behind conn) (common now.shared.behind)
  kept : ∀ i, J i (now.point i)
    ((held (now.point i)).map (status now.shared.behind))
    (common now.shared.behind)

/-- What keeps the custody, for the answered calls that are `ok`. -/
structure Custody.Rule (code : Code (PoolCall κ C) (PoolCall.Reply R) π)
    (held : π → Option κ) (commands : κ → Service C R σ)
    (status : σ → κ → s) (common : σ → τ)
    (ok : ι × Answer (PoolCall κ C) (PoolCall.Reply R) → Prop)
    (Q : κ → s → τ → Prop) (J : ι → π → Option s → τ → Prop) : Prop where
  /-- A command acts on its own connection. -/
  frame : ∀ {conn c b r b'}, commands conn c b r b' →
    ∀ other, other ≠ conn → status b' other = status b other
  acquire : ∀ {i p k conn st t}, code p = some ⟨.acquire, k⟩ →
    J i p none t → Q conn st t → J i (k conn) (some st) t
  command : ∀ {i p conn c k b r b'}, code p = some ⟨.command conn c, k⟩ →
    ok (i, ⟨.command conn c, r⟩) → commands conn c b r b' →
    J i p (some (status b conn)) (common b) →
    J i (k r) ((held (k r)).map (status b')) (common b')
  /-- What the others know stays true. -/
  stable : ∀ {i p conn c k b r b'}, code p = some ⟨.command conn c, k⟩ →
    ok (i, ⟨.command conn c, r⟩) → commands conn c b r b' →
    J i p (some (status b conn)) (common b) →
    (∀ other st, Q other st (common b) → Q other st (common b'))
      ∧ ∀ j, j ≠ i → ∀ q o, J j q o (common b) → J j q o (common b')
  release : ∀ {i p conn k st t}, code p = some ⟨.release conn, k⟩ →
    J i p (some st) t → J i (k ()) none t ∧ Q conn st t

variable [DecidableEq ι] {code : Code (PoolCall κ C) (PoolCall.Reply R) π}
  {held : π → Option κ} {drops : (c : C) → R c → Bool}
  {commands : κ → Service C R σ} {status : σ → κ → s} {common : σ → τ}
  {ok : ι × Answer (PoolCall κ C) (PoolCall.Reply R) → Prop}
  {Q : κ → s → τ → Prop} {J : ι → π → Option s → τ → Prop}
  {conns : List κ} {now next : Running ι π (Pool κ σ)}
  {e : ι × Answer (PoolCall κ C) (PoolCall.Reply R)}

omit [DecidableEq ι] in
/-- A command leaves the connections of the others as they are. -/
theorem Custody.Rule.others
    (hrule : Custody.Rule code held commands status common ok Q J)
    (hs : Ledger.Sound conns (ledger held now)) {i j : ι} {conn : κ} {c : C}
    {b : σ} {r : R c} {b' : σ} (hcommand : commands conn c b r b')
    (hi : held (now.point i) = some conn) (hj : j ≠ i) :
    (held (now.point j)).map (status b')
      = (held (now.point j)).map (status b) := by
  cases hheld : held (now.point j) with
  | none => rfl
  | some other =>
      have hne : other ≠ conn := by
        intro heq
        subst heq
        exact hj (hs.one j i other hheld hi)
      exact congrArg some (hrule.frame hcommand other hne)

/-- A move keeps the custody. -/
theorem Custody.move (hb : Borrows code held drops)
    (hrule : Custody.Rule code held commands status common ok Q J)
    (hs : Ledger.Sound conns (ledger held now))
    (hc : Custody held status common Q J now) (hok : ok e)
    (h : Move code (Pool.Serves commands) now e next) :
    Custody held status common Q J next := by
  obtain ⟨⟨queue, b⟩, point⟩ := now
  obtain ⟨hqueued, hkept⟩ := hc
  cases h with
  | @call i c k r shared hcode hservice =>
      have hi := hkept i
      -- it is enough to look at the one that moves, and at the others
      have hupdate := fun (b : σ) (p : π) =>
        (Function.forall_update_iff (a := i) (b := p) point
          fun j p => J j p ((held p).map (status b)) (common b)).mpr
      cases hservice with
      | @acquire conn queue b =>
          obtain ⟨hbefore, hafter⟩ := hb.acquire _ _ hcode
          rw [hbefore] at hi
          refine ⟨fun other hother => ?_, hupdate b _ ⟨?_, fun j _ => hkept j⟩⟩
          · exact hqueued other (List.mem_cons_of_mem _ hother)
          · rw [hafter]
            exact hrule.acquire hcode hi (hqueued conn (List.mem_cons_self ..))
      | @command conn c r queue b b' hcommand =>
          obtain ⟨hbefore, -⟩ := hb.command _ _ _ _ hcode
          rw [hbefore] at hi
          obtain ⟨hstableQ, hstableJ⟩ := hrule.stable hcode hok hcommand hi
          refine ⟨fun other hother => ?_, hupdate b' _ ⟨?_, fun j hj => ?_⟩⟩
          · have hne : other ≠ conn := by
              intro heq
              subst heq
              exact hs.apart i other hbefore hother
            show Q other (status b' other) (common b')
            rw [hrule.frame hcommand other hne]
            exact hstableQ _ _ (hqueued other hother)
          · exact hrule.command hcode hok hcommand hi
          · have hsame : (held (point j)).map (status b')
                = (held (point j)).map (status b) :=
              hrule.others hs hcommand hbefore hj
            rw [hsame]
            exact hstableJ j hj _ _ (hkept j)
      | @release conn queue b =>
          obtain ⟨hbefore, hafter⟩ := hb.release _ _ _ hcode
          rw [hbefore] at hi
          obtain ⟨hleft, hback⟩ := hrule.release hcode hi
          refine ⟨fun other hother => ?_, hupdate b _ ⟨?_, fun j _ => hkept j⟩⟩
          · rcases List.mem_append.mp hother with hold | hnew
            · exact hqueued other hold
            · obtain rfl := List.mem_singleton.mp hnew
              exact hback
          · rw [hafter]
            exact hleft

/-- The custody is kept by every run whose answered calls are ok. -/
theorem Run.custody (hb : Borrows code held drops)
    (hrule : Custody.Rule code held commands status common ok Q J)
    {es : List (ι × Answer (PoolCall κ C) (PoolCall.Reply R))}
    (h : Run (Move code (Pool.Serves commands)) now es next)
    (hok : ∀ e ∈ es, ok e)
    (hs : Ledger.Sound conns (Lib.ledger held now))
    (hc : Custody held status common Q J now) :
    Custody held status common Q J next := by
  have hboth := (h.guarded_of_forall hok).invariant
    (I := fun now => Ledger.Sound conns (Lib.ledger held now)
      ∧ Custody held status common Q J now)
    (fun now e next hI hmove =>
      ⟨(hmove.2.ledger hb).sound hI.1,
        Custody.move hb hrule hI.1 hI.2 hmove.1 hmove.2⟩)
    ⟨hs, hc⟩
  exact hboth.2

end Creeper.Lib
