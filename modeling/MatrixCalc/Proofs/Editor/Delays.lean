/-
**A document has one delay at most.**

The server notes for a document the number of the last delay that it has started for it.  Exactly the delays that
are noted are running: the noted one is stopped before another one is started, and the note is dropped when the
delay has passed or the document is closed.  So a document has one delay at most, and one that is not open has
none.  And exactly the open documents have evaluations that are kept.

Main definitions:

* `MatrixCalc.Editor.AreNoted` — the running delays are those that are noted;
* `MatrixCalc.Editor.AreOthers` — the delays of all documents but one;
* `MatrixCalc.Editor.Server.IsKept` — what the server keeps fits together.

Main results:

* `MatrixCalc.Editor.AreNoted.nodup_uri` — **no two delays are of the same document**;
* `MatrixCalc.Editor.AreNoted.erase`, `MatrixCalc.Editor.AreNoted.set` — delays that end and start;
* `MatrixCalc.Editor.Server.IsKept.revalidate`, `MatrixCalc.Editor.Server.IsKept.fire`,
  `MatrixCalc.Editor.Server.IsKept.schedule`, `MatrixCalc.Editor.Server.IsKept.close` — each operation keeps what
  fits together.
-/

import MatrixCalc.Proofs.Editor.Cache

set_option autoImplicit false

namespace MatrixCalc

namespace Editor

/-! ### Notes of delays -/

/-- The running delays are those that are noted, each under its number, which no other one has. -/
structure AreNoted (timers : Bindings Nat) (delays : List Delay) (clock : Nat) : Prop where
  noted : ∀ number uri, timers.get? uri = some number ↔ ⟨number, uri⟩ ∈ delays
  once : (delays.map Delay.number).Nodup
  before : ∀ d ∈ delays, d.number < clock

/-- The delays of all documents but one. -/
structure AreOthers (uri : String) (delays left : List Delay) : Prop where
  sublist : left.Sublist delays
  mem : ∀ d, d ∈ left ↔ d ∈ delays ∧ d.uri ≠ uri

namespace AreNoted

variable {timers : Bindings Nat} {delays left : List Delay} {clock : Nat} {uri : String}

theorem empty : AreNoted .empty [] clock where
  noted number uri := by simp
  once := List.nodup_nil
  before d hd := by cases hd

theorem eq_of_number (h : AreNoted timers delays clock) {d d' : Delay} (hd : d ∈ delays) (hd' : d' ∈ delays)
    (hnumber : d.number = d'.number) : d = d' :=
  List.inj_on_of_nodup_map h.once hd hd' hnumber

theorem eq_of_uri (h : AreNoted timers delays clock) {d d' : Delay} (hd : d ∈ delays) (hd' : d' ∈ delays)
    (huri : d.uri = d'.uri) : d = d' := by
  have hget := (h.noted d.number d.uri).2 hd
  rw [huri, (h.noted d'.number d'.uri).2 hd'] at hget
  exact h.eq_of_number hd hd' (Option.some.inj hget).symm

/-- **No two delays are of the same document.** -/
theorem nodup_uri (h : AreNoted timers delays clock) : (delays.map Delay.uri).Nodup :=
  List.Nodup.map_on (fun _ hd _ hd' huri => h.eq_of_uri hd hd' huri) (List.Nodup.of_map _ h.once)

/-- Without the delay of a number, those of all documents but its own are left. -/
theorem others_without (h : AreNoted timers delays clock) {d : Delay} (hd : d ∈ delays) :
    AreOthers d.uri delays (Server.without delays d.number) where
  sublist := List.filter_sublist
  mem d' := by
    rw [Server.without, List.mem_filter, bne_iff_ne]
    refine and_congr_right fun hd' => not_congr ⟨fun hnumber => ?_, fun huri => ?_⟩
    · rw [h.eq_of_number hd' hd hnumber]
    · rw [h.eq_of_uri hd' hd huri]

/-- Delays that end: those of a document are not noted any more. -/
theorem erase (h : AreNoted timers delays clock) (hleft : AreOthers uri delays left) :
    AreNoted (timers.erase uri) left clock where
  noted number uri' := by
    rw [Bindings.get?_erase, hleft.mem]
    by_cases huri : uri' = uri
    · simp [huri]
    · rw [if_neg huri, h.noted]
      simp [huri]
  once := (hleft.sublist.map _).nodup h.once
  before d hd := h.before d (hleft.sublist.subset hd)

/-- A delay that starts: it takes the place of the one that its document had. -/
theorem set (h : AreNoted timers delays clock) (hleft : AreOthers uri delays left) :
    AreNoted (timers.set uri clock) (left ++ [⟨clock, uri⟩]) (clock + 1) where
  noted number uri' := by
    rw [Bindings.get?_set, List.mem_append, hleft.mem, List.mem_singleton, Delay.mk.injEq]
    by_cases huri : uri' = uri
    · simp [huri, eq_comm]
    · rw [if_neg huri, h.noted]
      simp [huri]
  once := by
    rw [List.map_append, List.map_singleton, List.nodup_append]
    refine ⟨(hleft.sublist.map _).nodup h.once, List.nodup_singleton _, ?_⟩
    intro a ha b hb hab
    obtain ⟨d, hd, rfl⟩ := List.mem_map.1 ha
    have hlt := h.before d (hleft.sublist.subset hd)
    exact Nat.ne_of_lt hlt (hab.trans (List.mem_singleton.1 hb))
  before d hd := by
    rcases List.mem_append.1 hd with hd | hd
    · exact Nat.lt_succ_of_lt (h.before d (hleft.sublist.subset hd))
    · rw [List.mem_singleton.1 hd]
      exact Nat.lt_succ_self clock

end AreNoted

/-! ### Servers -/

namespace Server

variable {s : Server} {uri : String}

/-- A document with another text is open. -/
theorem knows_withDocument (s : Server) (uri source uri' : String) :
    (s.withDocument uri source).Knows uri' ↔ uri' = uri ∨ s.Knows uri' := by
  show ((s.documents.set uri source).get? uri').isSome = true ↔ _
  rw [Bindings.get?_set]
  by_cases huri : uri' = uri
  · simp [huri]
  · rw [if_neg huri]
    simp [huri, Knows]

/-- The other open documents keep their texts. -/
theorem document_withDocument_of_ne {uri' : String} (h : s.Knows uri') (huri : uri' ≠ uri) (source : String) :
    (s.withDocument uri source).document uri' = s.document uri' :=
  document_congr h ((Bindings.get?_set ..).trans (if_neg huri))

/-- What a server keeps fits together. -/
structure IsKept (s : Server) : Prop where
  sound : s.IsSound
  cached : ∀ uri, (s.cache.get? uri).isSome = true ↔ s.Knows uri
  noted : AreNoted s.timers s.delays s.clock
  knows : ∀ d ∈ s.delays, s.Knows d.uri

theorem isKept_start (w : Workspace) : (start w).IsKept where
  sound := isSound_start w
  cached uri := Iff.rfl
  noted := .empty
  knows d hd := by cases hd

/-- If the delay that is noted for a document is stopped, those of the others are left. -/
theorem others_cancel (h : AreNoted s.timers s.delays s.clock) (uri : String) :
    AreOthers uri s.delays (s.cancel uri).delays := by
  unfold cancel
  split
  · next hnone =>
      refine ⟨List.Sublist.refl _, fun d => ⟨fun hd => ⟨hd, fun huri => ?_⟩, And.left⟩⟩
      have hget := (h.noted d.number d.uri).2 hd
      rw [huri, hnone] at hget
      cases hget
  · next number hsome => exact h.others_without ((h.noted number uri).1 hsome)

/-! ### What operations do -/

/-- A text that is validated changes nothing but the evaluations. -/
theorem validate_eq (s : Server) (uri source : String) :
    (s.validate uri source).1 = s.withCache (s.validate uri source).1.cache := by
  unfold validate
  split
  · rfl
  · split <;> rfl

theorem exists_validate_eq (s : Server) (uri source : String) :
    ∃ cache, (s.validate uri source).1 = s.withCache cache := ⟨_, validate_eq s uri source⟩

theorem revalidate_eq (s : Server) (uri : String) :
    (s.revalidate uri).1 = s.withCache (s.revalidate uri).1.cache := validate_eq s uri _

theorem schedule_of_off (h : s.settings.evaluateOnChange = false) (uri : String) : s.schedule uri = s := by
  rw [schedule, h, if_neg Bool.false_ne_true]

theorem schedule_of_on (h : s.settings.evaluateOnChange = true) (uri : String) :
    s.schedule uri = { s with
      timers := s.timers.set uri s.clock
      delays := (s.cancel uri).delays ++ [⟨s.clock, uri⟩]
      clock := s.clock + 1 } := by
  rw [schedule, h, if_pos rfl, cancel_eq]

theorem close_eq (s : Server) (uri : String) :
    s.close uri = { s with
      documents := s.documents.erase uri
      cache := s.cache.erase uri
      timers := s.timers.erase uri
      delays := (s.cancel uri).delays } := by
  rw [close, cancel_eq]

/-- A delay of which there is none does nothing; one that is running has its document evaluated. -/
theorem fire_cases (s : Server) (number : Nat) :
    (∀ d ∈ s.delays, d.number ≠ number) ∧ s.fire number = (s, .none) ∨
      ∃ d ∈ s.delays, d.number = number ∧
        s.fire number = ({ (s.revalidate d.uri).1 with
          timers := s.timers.erase d.uri
          delays := without s.delays number }, (s.revalidate d.uri).2) := by
  unfold fire
  cases hfind : s.delays.find? fun d => d.number == number with
  | none => exact .inl ⟨fun d hd hnumber => by simpa [hnumber] using List.find?_eq_none.1 hfind d hd, rfl⟩
  | some d =>
      have hnumber : d.number = number := by simpa using List.find?_some hfind
      have htimers : (s.revalidate d.uri).1.timers = s.timers := by rw [revalidate_eq]; rfl
      have hdelays : (s.revalidate d.uri).1.delays = s.delays := by rw [revalidate_eq]; rfl
      refine .inr ⟨d, List.mem_of_find?_eq_some hfind, hnumber, ?_⟩
      simp only [htimers, hdelays]

/-! ### Each operation keeps what fits together -/

/-- A text that is validated becomes the one whose evaluation is kept for its document. -/
theorem isKept_validate (hsound : s.IsSound) (hcached : ∀ uri', uri' ≠ uri →
    ((s.cache.get? uri').isSome = true ↔ s.Knows uri')) (hnoted : AreNoted s.timers s.delays s.clock)
    (hknows : ∀ d ∈ s.delays, s.Knows d.uri) (hopen : s.Knows uri) (source : String) :
    (s.validate uri source).1.IsKept := by
  obtain ⟨e, n, cache, -, hvalidate, hcache⟩ := hsound.validate uri source
  refine ⟨(hsound.refl.validate uri source).1.sound, fun uri' => ?_, ?_, ?_⟩
  · rw [hvalidate]
    show (cache.get? uri').isSome = true ↔ s.Knows uri'
    rw [hcache]
    split
    · next huri =>
        rw [huri]
        exact ⟨fun _ => hopen, fun _ => rfl⟩
    · next huri => exact hcached uri' huri
  · rw [hvalidate]
    exact hnoted
  · rw [hvalidate]
    exact hknows

namespace IsKept

theorem revalidate (h : s.IsKept) (hopen : s.Knows uri) : (s.revalidate uri).1.IsKept :=
  isKept_validate h.sound (fun uri' _ => h.cached uri') h.noted h.knows hopen _

theorem opened (h : s.IsKept) (uri source : String) :
    ((s.withDocument uri source).validate uri source).1.IsKept := by
  have hsound : (s.withDocument uri source).IsSound := h.sound.of_cache_eq rfl
  refine isKept_validate hsound (fun uri' huri => ?_) h.noted (fun d hd => ?_) ?_ source
  · rw [knows_withDocument, or_iff_right huri]
    exact h.cached uri'
  · exact (knows_withDocument ..).2 (.inr (h.knows d hd))
  · exact (knows_withDocument ..).2 (.inl rfl)

/-- An open document may have another text. -/
theorem withDocument (h : s.IsKept) (hopen : s.Knows uri) (source : String) :
    (s.withDocument uri source).IsKept := by
  have hknows (uri' : String) : (s.withDocument uri source).Knows uri' ↔ s.Knows uri' := by
    rw [knows_withDocument, or_iff_right_of_imp]
    rintro rfl
    exact hopen
  exact ⟨h.sound.of_cache_eq rfl, fun uri' => (h.cached uri').trans (hknows uri').symm, h.noted,
    fun d hd => (hknows d.uri).2 (h.knows d hd)⟩

/-- The workspace may have other texts for documents that are not open. -/
theorem withWorkspace (h : s.IsKept) (workspace : Workspace) : (s.withWorkspace workspace).IsKept :=
  ⟨h.sound.of_cache_eq rfl, h.cached, h.noted, h.knows⟩

theorem schedule (h : s.IsKept) (hopen : s.Knows uri) : (s.schedule uri).IsKept := by
  cases hchange : s.settings.evaluateOnChange with
  | false =>
      rw [schedule_of_off hchange]
      exact h
  | true =>
      have hothers := others_cancel h.noted uri
      rw [schedule_of_on hchange]
      refine ⟨h.sound.of_cache_eq rfl, h.cached, h.noted.set hothers, fun d hd => ?_⟩
      rcases List.mem_append.1 hd with hd | hd
      · exact h.knows d (hothers.sublist.subset hd)
      · rw [List.mem_singleton.1 hd]
        exact hopen

theorem close (h : s.IsKept) (uri : String) : (s.close uri).IsKept := by
  have hothers := others_cancel h.noted uri
  rw [close_eq]
  refine ⟨fun uri' e hget => ?_, fun uri' => ?_, h.noted.erase hothers, fun d hd => ?_⟩
  · replace hget : (s.cache.erase uri).get? uri' = some e := hget
    rw [Bindings.get?_erase] at hget
    split at hget
    · cases hget
    · exact h.sound uri' e hget
  · show ((s.cache.erase uri).get? uri').isSome = true ↔ ((s.documents.erase uri).get? uri').isSome = true
    rw [Bindings.get?_erase, Bindings.get?_erase]
    split
    · exact Iff.rfl
    · exact h.cached uri'
  · obtain ⟨hd, huri⟩ := (hothers.mem d).1 hd
    show ((s.documents.erase uri).get? d.uri).isSome = true
    rw [Bindings.get?_erase, if_neg huri]
    exact h.knows d hd

theorem fire (h : s.IsKept) (number : Nat) : (s.fire number).1.IsKept := by
  rcases fire_cases s number with ⟨-, hfire⟩ | ⟨d, hd, rfl, hfire⟩ <;> rw [hfire]
  · exact h
  · have hothers := h.noted.others_without hd
    have hkept := h.revalidate (h.knows d hd)
    rw [revalidate_eq] at hkept ⊢
    exact ⟨hkept.sound, hkept.cached, h.noted.erase hothers,
      fun d' hd' => h.knows d' (hothers.sublist.subset hd')⟩

end IsKept

end Server

end Editor

end MatrixCalc
