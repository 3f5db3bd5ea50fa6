/-
# The turns of a call

A call takes its turns poll by poll:

```
   poll                poll                     poll
 ├─ turn ─ turn ─ waits ┆ deeds ┆ turn ─ waits ┆ deeds ┆ turn ─ turn ─┤
```

A turn that waits has done nothing. The next poll takes it up again, at the links as the neighbors
have left them, so it counts as one turn (`Trial.turns`). What every turn that acts keeps, and every
deed of a neighbor while the call waits, is true at all turns of the call (`Trial.exists_course_run`).
-/

import DiffusionMesh.Proofs.Halo.Endings
import DiffusionMesh.Proofs.Halo.Trial

namespace DiffusionMesh
namespace Trial

/-- The sessions at which a round takes its turns, from a poll on. -/
def turnsFrom (t : Trial) (r : Round) (incoming : Compass Edge) : List (List Deed) → List Session
  | [] => (t.session r incoming).turns
  | deeds :: rest =>
    let s := t.session r incoming
    match s.poll.verdict with
    | .waiting => s.turns.dropLast ++ (deeds.foldl deed (t.took s.poll)).turnsFrom
        s.poll.session.round s.poll.session.incoming rest
    | _ => s.turns

/-- The sessions at which a call takes its turns. -/
def turns (t : Trial) (c : Call) : List Session :=
  let (exchange, round, incoming, acts) := t.exchange.start c.iteration c.outgoing c.incoming
  { t with exchange := exchange, log := t.log ++ acts }.turnsFrom round incoming c.visits

/-- A round goes on after a poll that waits. -/
theorem turnsFrom_of_waiting {t : Trial} {r : Round} {incoming : Compass Edge} {p : Poll}
    (hpoll : (t.session r incoming).poll = p) (hwaits : p.verdict = .waiting) (deeds : List Deed)
    (rest : List (List Deed)) : t.turnsFrom r incoming (deeds :: rest) =
      (t.session r incoming).turns.dropLast ++
        (deeds.foldl deed (t.took p)).turnsFrom p.session.round p.session.incoming rest := by
  rw [turnsFrom, hpoll, hwaits]

/-- A call has come to what its last poll came to, with its acts after those before the call. -/
structure Returned.Tells (q : Returned) (log : List Act) (p : Poll) : Prop where
  log : q.trial.log = log ++ p.acts
  exchange : q.trial.exchange = p.session.exchange
  ports : q.trial.ports = p.session.ports
  verdict : q.verdict = p.verdict

/-- **What turns and deeds keep is true at every turn of a round**, however it goes on. -/
theorem exists_course_run {motive : List Act → Session → Prop}
    (step : ∀ {acts s act next}, motive acts s → s.turn = .acted act next →
      motive (acts ++ [act]) next)
    (wait : ∀ {acts u r incoming} (deeds : List Deed), motive acts (session u r incoming) →
      motive acts ((deeds.foldl deed u).session r incoming))
    {t : Trial} {r : Round} {incoming : Compass Edge} {log past : List Act}
    (start : motive past (t.session r incoming)) (hlog : t.log = log ++ past)
    (visits : List (List Deed)) :
    ∃ acts last p, Session.Course motive past (t.turnsFrom r incoming visits) acts last ∧
      last.EndsIn acts p ∧ (t.run r incoming visits).Tells log p := by
  induction visits generalizing t r incoming past with
  | nil =>
    obtain ⟨acts, last, hcourse, hends⟩ := (t.session r incoming).exists_course past start step
    exact ⟨acts, last, _, hcourse, hends,
      (congrArg (· ++ _) hlog).trans (List.append_assoc ..), rfl, rfl, rfl⟩
  | cons deeds rest ih =>
    obtain ⟨acts, last, hcourse, hends⟩ := (t.session r incoming).exists_course past start step
    have hacts : t.log ++ (t.session r incoming).poll.acts =
        log ++ (past ++ (t.session r incoming).poll.acts) := by rw [hlog, List.append_assoc]
    rw [turnsFrom, run]
    cases hverdict : (t.session r incoming).poll.verdict with
    | waiting =>
      -- the round goes on from the session that the last turn found waiting
      obtain ⟨rfl, rfl, -⟩ := Poll.mk.inj (hends.of_waiting hverdict)
      obtain ⟨hgoes, -, -⟩ := (t.took (t.session r incoming).poll).deeds_keep deeds
      obtain ⟨more, last, p, hmore, hends, htells⟩ :=
        ih (wait (u := t.took (t.session r incoming).poll) deeds hcourse.last)
          ((hgoes.log.trans (List.append_nil _)).trans hacts)
      exact ⟨more, last, p, hcourse.resume hmore, hends, htells⟩
    | finished | failed =>
      exact ⟨acts, last, _, hcourse, hends, hacts, rfl, rfl, hverdict.symm⟩

end Trial
end DiffusionMesh
