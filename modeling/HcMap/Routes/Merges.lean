import HcMap.Routes.RequestLaws
import HcMap.Services.Masking

/-!
# What a merge preserves

A merge takes the source's live links over to the target, where the target has
none. A link that it drops, or finds dropped, stays with the source, and the
list of participants does not look at tombstones.
-/

namespace HcMap.Routes

open Services (mergePersons repoint moveParticipant dropOverlap listParticipants joinParticipants
  listed)

def LiveIn (db : Database) (eventId personId : Uuid) : Prop :=
  ∃ ep ∈ db.participants, ep.eventId = eventId ∧ ep.personId = personId ∧ ep.isDeleted = false

structure Preserved (le : String → String → Prop) [DecidableRel le] (db db' : Database)
    (sid tid : Uuid) : Prop where
  target : ∀ eid, LiveIn db' eid tid ↔ LiveIn db eid sid ∨ LiveIn db eid tid
  source : ∀ ep ∈ db'.participants, ep.personId = sid → ep.isDeleted
  applications : ∀ a ∈ db'.applications, a.performerId ≠ sid ∧ a.recipientId ≠ sid
  unique : db'.LinksUnique
  otherLinks : ∀ ep : EventParticipant, ep.personId ≠ sid → ep.personId ≠ tid →
    (ep ∈ db'.participants ↔ ep ∈ db.participants)
  otherApplications : ∀ a : Application, a.performerId ≠ sid ∧ a.performerId ≠ tid →
    a.recipientId ≠ sid ∧ a.recipientId ≠ tid → (a ∈ db'.applications ↔ a ∈ db.applications)
  otherPersons : ∀ p : Person, p.id ≠ sid → (p ∈ db'.persons ↔ p ∈ db.persons)
  listing : ∀ s eid, ((listParticipants le db' s eid).map Person.id).count tid ≤ 1 ∧
    sid ∉ (listParticipants le db' s eid).map Person.id

/-- Where a link comes from. -/
inductive Repointed (db : Database) (clock : Time) (sid tid : Uuid) :
    EventParticipant → EventParticipant → Prop
  | other {r : EventParticipant} (h : r.personId ≠ sid) : Repointed db clock sid tid r r
  | moved {r : EventParticipant} (h : r.personId = sid) (hlive : r.isDeleted = false)
      (hfree : ¬ db.Linked r.eventId tid) :
      Repointed db clock sid tid r { r with personId := tid, updatedAt := clock }
  | left {r ep : EventParticipant} (h : r.personId = sid)
      (hleft : ¬ (r.isDeleted = false ∧ ¬ db.Linked r.eventId tid))
      (hevent : ep.eventId = r.eventId) (hperson : ep.personId = sid)
      (hdeleted : ep.isDeleted = true) : Repointed db clock sid tid r ep

section
variable {db db' : Database} {s : Session} {clock : Time} {source : Person} {sid tid eid : Uuid}
  {a : Application} {ep r : EventParticipant} {le : String → String → Prop} [DecidableRel le]

-- ---------------------------------------------------------------------------
-- One link
-- ---------------------------------------------------------------------------

theorem repointed_other (h : r.personId ≠ sid) :
    moveParticipant clock sid tid (dropOverlap db clock sid tid r) = r := by
  have hdrop : dropOverlap db clock sid tid r = r := if_neg fun hr => h hr.1
  rw [hdrop]
  exact if_neg fun hr => h hr.1

theorem repointed_moved (clock : Time) (h : r.personId = sid) (hlive : r.isDeleted = false)
    (hfree : ¬ db.Linked r.eventId tid) :
    moveParticipant clock sid tid (dropOverlap db clock sid tid r) =
      { r with personId := tid, updatedAt := clock } := by
  have hdrop : dropOverlap db clock sid tid r = r := if_neg fun hr => hfree hr.2
  rw [hdrop]
  exact if_pos ⟨h, by simp [hlive]⟩

/-- Any other link of the source stays with it, as a tombstone. -/
theorem repointed_left (clock : Time) (h : r.personId = sid)
    (hleft : ¬ (r.isDeleted = false ∧ ¬ db.Linked r.eventId tid)) :
    (moveParticipant clock sid tid (dropOverlap db clock sid tid r)).personId = sid ∧
      (moveParticipant clock sid tid (dropOverlap db clock sid tid r)).isDeleted = true := by
  have hdropped : (dropOverlap db clock sid tid r).personId = sid ∧
      (dropOverlap db clock sid tid r).isDeleted = true := by
    unfold dropOverlap
    split
    · exact ⟨h, rfl⟩
    · rename_i hnot
      refine ⟨h, ?_⟩
      by_contra hlive
      exact hleft ⟨by simpa using hlive, fun hlinked => hnot ⟨h, hlinked⟩⟩
  have hstays : moveParticipant clock sid tid (dropOverlap db clock sid tid r) =
      dropOverlap db clock sid tid r := if_neg fun hr => hr.2 hdropped.2
  rw [hstays]
  exact hdropped

theorem repointed_cases (db : Database) (clock : Time) (sid tid : Uuid) (r : EventParticipant) :
    Repointed db clock sid tid r
      (moveParticipant clock sid tid (dropOverlap db clock sid tid r)) := by
  by_cases h : r.personId = sid
  · by_cases hmoves : r.isDeleted = false ∧ ¬ db.Linked r.eventId tid
    · rw [repointed_moved clock h hmoves.1 hmoves.2]
      exact .moved h hmoves.1 hmoves.2
    · obtain ⟨hperson, hdeleted⟩ := repointed_left clock h hmoves
      exact .left h hmoves (by simp) hperson hdeleted
  · rw [repointed_other h]
    exact .other h

theorem mem_repoint (h : ep ∈ (repoint db clock source sid tid).participants) :
    ∃ r ∈ db.participants, Repointed db clock sid tid r ep := by
  obtain ⟨r, hr, rfl⟩ := Services.mem_participants_repoint.mp h
  exact ⟨r, hr, repointed_cases db clock sid tid r⟩

theorem source_repoint (hne : sid ≠ tid)
    (h : ep ∈ (repoint db clock source sid tid).participants) (hperson : ep.personId = sid) :
    ep.isDeleted = true := by
  obtain ⟨r, -, hcase⟩ := mem_repoint h
  cases hcase with
  | other hother => exact absurd hperson hother
  | moved => exact absurd hperson.symm hne
  | left _ _ _ _ hdeleted => exact hdeleted

theorem other_repoint (hs : ep.personId ≠ sid) (ht : ep.personId ≠ tid) :
    ep ∈ (repoint db clock source sid tid).participants ↔ ep ∈ db.participants := by
  constructor
  · intro h
    obtain ⟨r, hr, hcase⟩ := mem_repoint h
    cases hcase with
    | other => exact hr
    | moved => exact absurd rfl ht
    | left _ _ _ hperson => exact absurd hperson hs
  · intro h
    exact Services.mem_participants_repoint.mpr ⟨ep, h, repointed_other hs⟩

theorem linksUnique_repoint (hne : sid ≠ tid) (hunique : db.LinksUnique) :
    (repoint db clock source sid tid).LinksUnique := by
  intro ep hep ep' hep' hevent hperson
  obtain ⟨r, hr, rfl⟩ := Services.mem_participants_repoint.mp hep
  obtain ⟨r', hr', rfl⟩ := Services.mem_participants_repoint.mp hep'
  have hsame : r = r' → moveParticipant clock sid tid (dropOverlap db clock sid tid r) =
      moveParticipant clock sid tid (dropOverlap db clock sid tid r') := fun h => by rw [h]
  have hevents : r.eventId = r'.eventId := by simpa using hevent
  refine hsame (hunique r hr r' hr' hevents ?_)
  have hcase := repointed_cases db clock sid tid r
  have hcase' := repointed_cases db clock sid tid r'
  generalize moveParticipant clock sid tid (dropOverlap db clock sid tid r) = ep at hcase hperson
  generalize moveParticipant clock sid tid (dropOverlap db clock sid tid r') = ep'
    at hcase' hperson
  cases hcase with
  | other h =>
    cases hcase' with
    | other h' => exact hperson
    | moved h' hlive hfree => exact absurd ⟨_, hr, hevents, hperson⟩ hfree
    | left h' _ _ hperson' => exact absurd (hperson.trans hperson') h
  | moved h hlive hfree =>
    cases hcase' with
    | other h' => exact absurd ⟨_, hr', hevents.symm, hperson.symm⟩ hfree
    | moved h' => exact h.trans h'.symm
    | left h' _ _ hperson' => exact absurd (hperson.trans hperson').symm hne
  | left h _ _ hperson' =>
    cases hcase' with
    | other h' => exact absurd (hperson.symm.trans hperson') h'
    | moved => exact absurd (hperson.symm.trans hperson').symm hne
    | left h' => exact h.trans h'.symm

theorem applications_repoint_free (hne : sid ≠ tid)
    (h : a ∈ (repoint db clock source sid tid).applications) :
    a.performerId ≠ sid ∧ a.recipientId ≠ sid := by
  obtain ⟨r, -, t, rfl⟩ := Services.mem_applications_repoint h
  constructor <;> dsimp only <;> split
  · exact hne.symm
  · assumption
  · exact hne.symm
  · assumption

theorem otherApplication_repoint (hp : a.performerId ≠ sid ∧ a.performerId ≠ tid)
    (hr : a.recipientId ≠ sid ∧ a.recipientId ≠ tid) :
    a ∈ (repoint db clock source sid tid).applications ↔ a ∈ db.applications := by
  constructor
  · intro h
    rw [repoint, Table.mem_map] at h
    obtain ⟨_, hm, rfl⟩ := h
    obtain ⟨b, hb, rfl⟩ := Table.mem_map.mp hm
    obtain ⟨t, hperformer⟩ := Services.movePerformer_eq clock sid tid b
    obtain ⟨t', hrecipient⟩ := Services.moveRecipient_eq clock sid tid
      (Services.movePerformer clock sid tid b)
    rw [hrecipient, hperformer] at hp hr
    have hkeeps : b.performerId ≠ sid := fun h => hp.2 (if_pos h)
    have hkeeps' : b.recipientId ≠ sid := fun h => hr.2 (if_pos h)
    have hsame : Services.movePerformer clock sid tid b = b := if_neg hkeeps
    rw [hsame, Services.moveRecipient, if_neg hkeeps']
    exact hb
  · intro h
    rw [repoint, Table.mem_map]
    have hsame : Services.movePerformer clock sid tid a = a := if_neg hp.1
    exact ⟨a, Table.mem_map.mpr ⟨a, h, hsame⟩, if_neg hr.1⟩

theorem otherPerson_repoint (hsource : source.id = sid) {p : Person} (hp : p.id ≠ sid) :
    p ∈ (repoint db clock source sid tid).persons ↔ p ∈ db.persons := by
  constructor
  · intro h
    rcases Table.mem_set h with rfl | ⟨hmem, -⟩
    · exact absurd hsource hp
    · exact hmem
  · intro h
    refine Table.mem_set_of_ne h fun hkey => hp ?_
    exact hkey.trans hsource

-- ---------------------------------------------------------------------------
-- The whole merge
-- ---------------------------------------------------------------------------

/-- Every link of the source is live, in an event without any link of the
target. -/
def Separate (db : Database) (sid tid : Uuid) : Prop :=
  ∀ ep ∈ db.participants, ep.personId = sid →
    ep.isDeleted = false ∧ ¬ db.Linked ep.eventId tid

instance (db : Database) (sid tid : Uuid) : Decidable (Separate db sid tid) := by
  unfold Separate
  infer_instance

theorem source_unlinked_iff (clock : Time) (source : Person) (hne : sid ≠ tid) :
    (∀ ep ∈ (repoint db clock source sid tid).participants, ep.personId ≠ sid) ↔
      Separate db sid tid := by
  constructor
  · intro h ep hep hperson
    by_contra hleft
    exact h _ (Services.mem_participants_repoint.mpr ⟨ep, hep, rfl⟩)
      (repointed_left clock hperson hleft).1
  · intro h ep hep hperson
    obtain ⟨r, hr, hcase⟩ := mem_repoint hep
    cases hcase with
    | other hother => exact hother hperson
    | moved => exact hne hperson.symm
    | left hsource hleft => exact hleft (h r hr hsource)

theorem liveIn_repoint (hne : sid ≠ tid) (h : Separate db sid tid) :
    LiveIn (repoint db clock source sid tid) eid tid ↔ LiveIn db eid sid ∨ LiveIn db eid tid := by
  constructor
  · rintro ⟨ep, hep, hevent, hperson, hlive⟩
    obtain ⟨r, hr, hcase⟩ := mem_repoint hep
    cases hcase with
    | other => exact .inr ⟨ep, hr, hevent, hperson, hlive⟩
    | moved hsource => exact .inl ⟨r, hr, hevent, hsource, hlive⟩
    | left _ _ _ hstays => exact absurd (hstays.symm.trans hperson) hne
  · rintro (⟨r, hr, hevent, hsource, hlive⟩ | ⟨r, hr, hevent, hperson, hlive⟩)
    · have hmoved := repointed_moved clock hsource hlive (h r hr hsource).2
      exact ⟨_, Services.mem_participants_repoint.mpr ⟨r, hr, hmoved⟩, hevent, rfl, hlive⟩
    · have hother : r.personId ≠ sid := fun h => hne (h.symm.trans hperson)
      exact ⟨r, Services.mem_participants_repoint.mpr ⟨r, hr, repointed_other hother⟩, hevent,
        hperson, hlive⟩

/-- A merge preserves participation exactly when the two persons' links are
separate and the source's are live. -/
theorem mergePersons_preserved_iff (hunique : db.LinksUnique)
    (h : mergePersons db clock sid tid = .ok db') :
    Preserved le db db' sid tid ↔ Separate db sid tid := by
  obtain ⟨hne, -, -, source, hsource, rfl⟩ := mergePersons_ok h
  rw [← source_unlinked_iff clock source hne]
  have hid : source.id = sid := Table.key_of_find? hsource
  have hunique' : (repoint db clock source sid tid).LinksUnique := linksUnique_repoint hne hunique
  constructor
  · intro hpreserved ep hep hperson
    -- the admin who merges sees the source in the list
    refine (hpreserved.listing ⟨0, .admin, 0, 0⟩ ep.eventId).2 ?_
    refine (Services.listParticipants_perm _ _ _ _).mem_iff.mpr (Services.mem_listed.mpr ⟨?_, ?_⟩)
    · show ((db.persons.set _).find? sid).isSome
      rw [Table.find?_set_isSome, hsource]
      rfl
    · exact ⟨ep, hep, .inl (.inl rfl), rfl, hperson⟩
  · intro hunlinked
    have hseparate := (source_unlinked_iff clock source hne).mp hunlinked
    refine ⟨fun eid => liveIn_repoint hne hseparate, fun ep hep => source_repoint hne hep,
      fun a ha => applications_repoint_free hne ha, hunique', fun ep => other_repoint,
      fun a => otherApplication_repoint, fun p => otherPerson_repoint hid, fun s eid => ⟨?_, ?_⟩⟩
    · have hperm := Services.listParticipants_perm le (repoint db clock source sid tid) s eid
      rw [hperm.count_eq]
      exact List.nodup_iff_count_le_one.mp (Services.nodup_listed hunique') tid
    · intro hlisted
      obtain ⟨-, ep, hep, -, -, hperson⟩ := Services.mem_listed.mp
        ((Services.listParticipants_perm _ _ _ _).mem_iff.mp hlisted)
      exact hunlinked ep hep hperson

end

-- ---------------------------------------------------------------------------
-- Two persons in one event
-- ---------------------------------------------------------------------------

def sampleMerge (eventId : Uuid) : Database :=
  { sample with
    persons := sample.persons.put ⟨5, "E", none, none, false, none⟩
    events := sample.events.put { sampleEvent with id := 2 }
    participants :=
      (sample.participants.put ⟨3, 1, 4, 10, 10, false, none⟩).put
        ⟨4, eventId, 5, 10, 10, false, none⟩ }

theorem mergePersons_preserved_iff_sample :
    ∃ db', mergePersons (sampleMerge 2) 101 4 5 = .ok db' ∧
      Preserved (· ≤ ·) (sampleMerge 2) db' 4 5 :=
  ⟨_, rfl, (mergePersons_preserved_iff (by decide) rfl).mpr (by decide)⟩

/-- Of two persons who take part in one event, the source stays listed. -/
theorem mergePersons_lists_source :
    ∃ db', mergePersons (sampleMerge 1) 101 4 5 = .ok db' ∧
      ¬ Preserved (· ≤ ·) (sampleMerge 1) db' 4 5 := by
  refine ⟨_, rfl, fun h => (h.listing sampleAdmin 1).2 ?_⟩
  decide

end HcMap.Routes
