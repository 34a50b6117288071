import PixRail.Outbox.Delivery
import PixRail.Switcher.Drafts

/-!
# The identity of an event

The relay delivers at least once, and the topology names `event_id` as the
header by which a consumer tells a repeated message from a new one.  The
in-memory store does not check that the ids differ.  They do: each is a draw
of its own, so the id of a published message determines the event
(`event_ids_identify`).
-/

namespace PixRail.Outbox

open Go Rail Events Store Interleave Switcher Messaging

section runs

variable {E : Env} {tl dl : Option E.Lim} {tr : Trace (switch E)} {w : World (switch E)}

/-- What the store wrote was handed to it. -/
theorem written_sublist_handed (tr : Trace (switch E)) :
    ((tr.flatMap written).map (·.eventID)).Sublist (handed (acts tr)) := by
  induction tr with
  | nil => exact .slnil
  | cons e tr ih =>
    rw [List.flatMap_cons, List.map_append]
    rcases e with ⟨cid, c⟩ | ⟨cid, o, i, r⟩
    · exact ih
    · have hhead : ((written (.act cid ⟨o, i, r⟩ : Ev (switch E))).map (·.eventID)).Sublist
          (Op.eventIDs o) := by
        cases o with
        | store call =>
          simp only [written, Op.eventIDs]
          split
          · exact .refl _
          · exact List.nil_sublist _
        | _ => exact List.nil_sublist _
      exact hhead.append ih

/-- No two records of the outbox carry the same event id. -/
theorem runs_eventIDs (hids : (newIDs tr).Nodup) (h : Runs E tl dl tr w) :
    (w.state.store.events.map (·.event.eventID)).Nodup := by
  have hmap : w.state.store.events.map (·.event.eventID) =
      (tr.flatMap written).map (·.eventID) := by
    rw [← (runs_written h).1, List.map_map]
    rfl
  rw [hmap]
  exact (handed_nodup hids h).sublist (written_sublist_handed tr)

/-- A message that was handed to the publisher is an event of the outbox. -/
theorem mem_events_of_publish (h : Runs E tl dl tr w) {cid : Nat} {e : Event} {i : Input}
    {r : Except Err Unit} (ha : actEv cid (.publish e) i r ∈ tr) :
    ∃ rec ∈ w.state.store.events, rec.event = e := by
  obtain ⟨t₁, t₂, rfl⟩ := List.append_of_mem ha
  obtain ⟨c, -, hallows⟩ := (contract E tl dl).allows_at h
  cases hallows with
  | publish hhand =>
    obtain ⟨now, limit, tok, u, records, ⟨j, hj⟩, hmem⟩ := inHand_claimed hhand
    have hentry := claimed_entry h (List.mem_append_left _ (mem_hist.mp hj)) hmem
    obtain ⟨rec, hrec, he⟩ := List.mem_map.mp hentry
    exact ⟨rec, hrec, congrArg Prod.snd he⟩

/-- As long as identifiers are drawn once, the event ids of the outbox are
pairwise different, and two messages handed to the publisher with one event
id, by whichever relays, are the same event. -/
theorem event_ids_identify (hids : (newIDs tr).Nodup) (h : Runs E tl dl tr w) :
    (w.state.store.events.map (·.event.eventID)).Nodup ∧
      ∀ {cid cid' : Nat} {e e' : Event} {i i' : Input} {r r' : Except Err Unit},
        actEv cid (.publish e) i r ∈ tr → actEv cid' (.publish e') i' r' ∈ tr →
          e.eventID = e'.eventID → e = e' := by
  refine ⟨runs_eventIDs hids h, ?_⟩
  intro cid cid' e e' i i' r r' ha ha' heq
  obtain ⟨rec, hrec, rfl⟩ := mem_events_of_publish h ha
  obtain ⟨rec', hrec', rfl⟩ := mem_events_of_publish h ha'
  rw [List.inj_on_of_nodup_map (runs_eventIDs hids h) hrec hrec' heq]

end runs

/-- The two relays of the lapsed claim hand over the same message. -/
theorem event_ids_identify_lapse :
    (newIDs lapse.1).Nodup ∧ lapse.2.state.store.events.length = 5 ∧
      (lapse.2.state.store.events.map (·.event.eventID)).Nodup :=
  ⟨by decide +kernel, by decide +kernel,
    (event_ids_identify (by decide +kernel) (World.run_ran _ _ _)).1⟩

end PixRail.Outbox
