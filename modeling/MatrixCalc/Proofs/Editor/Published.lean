/-
**Evaluated documents are up to date.**

What was published last for a document is up to date if it is the reports of its text, evaluated with the settings
as they are.  Evaluating a document brings it up to date.  Nothing but another text, other settings, or closing the
document, ends that: and other settings have all open documents evaluated.

Main definitions:

* `MatrixCalc.Editor.lastFor?`, `MatrixCalc.Editor.Server.IsUpToDate` — the last reports about a document, and
  whether they are up to date;
* `MatrixCalc.Editor.Server.IsTold` — the documents that are due are up to date, but for delays;
* `MatrixCalc.Editor.Server.Accepts` — a client changes and saves open documents only;
* `MatrixCalc.Editor.Server.Advances` — what a step does to the documents.

Main results:

* `MatrixCalc.Editor.Server.IsSound.isUpToDate_validate` — **evaluating a document brings it up to date**;
* `MatrixCalc.Editor.Server.IsTold.opened`, `MatrixCalc.Editor.Server.IsTold.changed`,
  `MatrixCalc.Editor.Server.IsTold.closed`, `MatrixCalc.Editor.Server.IsTold.fire` — what each operation does to
  the documents that are due;
* `MatrixCalc.Editor.Server.IsKept.handle` — **each step keeps what fits together**.
-/

import MatrixCalc.Proofs.Editor.Delays

set_option autoImplicit false

namespace MatrixCalc

namespace Editor

/-! ### The last reports -/

/-- What was published last for a document. -/
def lastFor? (uri : String) (ps : List Publication) : Option Publication :=
  (ps.filter fun p => p.uri == uri).getLast?

theorem lastFor?_concat (uri : String) (ps : List Publication) (p : Publication) :
    lastFor? uri (ps ++ [p]) = if p.uri = uri then some p else lastFor? uri ps := by
  by_cases huri : p.uri = uri <;> simp [lastFor?, huri]

namespace Server

variable {s t : Server} {ps : List Publication} {uri uri' : String}

/-- The last reports about a document are those of its text, evaluated with the settings. -/
def IsUpToDate (s : Server) (ps : List Publication) (uri : String) : Prop :=
  ∃ p, lastFor? uri ps = some p ∧ p.IsFresh s.settings (s.document uri)

theorem IsUpToDate.congr (h : s.IsUpToDate ps uri) (hsettings : t.settings = s.settings)
    (hdocument : t.document uri = s.document uri) : t.IsUpToDate ps uri := by
  obtain ⟨p, hp, hfresh⟩ := h
  exact ⟨p, hp, by rwa [hsettings, hdocument]⟩

/-- What is published for another document does not matter. -/
theorem IsUpToDate.concat (h : s.IsUpToDate ps uri) {p : Publication} (hp : p.uri ≠ uri) :
    s.IsUpToDate (ps ++ [p]) uri := by
  obtain ⟨p', hlast, hfresh⟩ := h
  exact ⟨p', by rw [lastFor?_concat, if_neg hp, hlast], hfresh⟩

/-- Evaluating a document brings it up to date, and leaves the others as they are. -/
theorem IsSound.isUpToDate_validate (h : s.IsSound) {source : String} (hsource : s.document uri = source)
    (huri : uri' = uri ∨ s.IsUpToDate ps uri') :
    (s.validate uri source).1.IsUpToDate (ps ++ (s.validate uri source).2.published) uri' := by
  obtain ⟨hsame, p, hp, hpuri, hfresh⟩ := h.refl.validate uri source
  rw [hp]
  by_cases hown : uri = uri'
  · obtain rfl := hown
    refine ⟨p, by rw [lastFor?_concat, if_pos hpuri], ?_⟩
    rwa [hsame.settings, hsame.document_eq, hsource]
  · have hother := huri.resolve_left fun huri => hown huri.symm
    exact (hother.congr hsame.settings (hsame.document_eq uri')).concat (by rwa [hpuri])

/-- The documents that are due are up to date, unless a delay of theirs is running. -/
def IsTold (due : String → Prop) (s : Server) (ps : List Publication) : Prop :=
  ∀ uri, s.Knows uri → due uri → (∀ d ∈ s.delays, d.uri ≠ uri) → s.IsUpToDate ps uri

namespace IsTold

variable {due due' : String → Prop}

theorem mono (h : s.IsTold due ps) (hdue : ∀ uri, s.Knows uri → due' uri → due uri) : s.IsTold due' ps :=
  fun uri hknows hdue' => h uri hknows (hdue uri hknows hdue')

/-- A document that is evaluated is up to date. -/
theorem revalidate (h : s.IsTold due ps) (hsound : s.IsSound) (uri : String) :
    (s.revalidate uri).1.IsTold (fun uri' => uri' = uri ∨ due uri') (ps ++ (s.revalidate uri).2.published) := by
  intro uri' hknows hdue hdelays
  rw [revalidate_eq] at hknows hdelays
  exact hsound.isUpToDate_validate rfl (hdue.imp_right fun hdue => h uri' hknows hdue hdelays)

/-- A document that is opened is up to date. -/
theorem opened (h : s.IsTold due ps) (hsound : s.IsSound) (uri source : String) :
    ((s.withDocument uri source).validate uri source).1.IsTold (fun uri' => uri' = uri ∨ due uri')
      (ps ++ ((s.withDocument uri source).validate uri source).2.published) := by
  intro uri' hknows hdue hdelays
  have hsound' : (s.withDocument uri source).IsSound := hsound.of_cache_eq rfl
  rw [validate_eq] at hknows hdelays
  refine hsound'.isUpToDate_validate (document_withDocument_self ..) ?_
  by_cases huri : uri' = uri
  · exact .inl huri
  · have hknows' := ((knows_withDocument ..).1 hknows).resolve_left huri
    exact .inr ((h uri' hknows' (hdue.resolve_left huri) hdelays).congr rfl
      (document_withDocument_of_ne hknows' huri source))

/-- A document that is changed is due only if texts are evaluated while they are changed, and then a delay of it is
running. -/
theorem changed (h : s.IsTold due ps) (hkept : s.IsKept) (uri source : String) :
    ((s.withDocument uri source).schedule uri).IsTold
      (fun uri' => (uri' = uri → s.settings.evaluateOnChange = true) ∧ (uri' ≠ uri → due uri')) ps := by
  intro uri' hknows hdue hdelays
  have hnoted : AreNoted (s.withDocument uri source).timers (s.withDocument uri source).delays
      (s.withDocument uri source).clock := hkept.noted
  have hothers := others_cancel hnoted uri
  -- a document that is not the changed one is known and due as before, and so are its delays
  have hother (huri : uri' ≠ uri) (hknows : (s.withDocument uri source).Knows uri')
      (hdelays : ∀ d ∈ s.delays, d.uri ≠ uri') : (s.withDocument uri source).IsUpToDate ps uri' := by
    have hknows' := ((knows_withDocument ..).1 hknows).resolve_left huri
    exact (h uri' hknows' (hdue.2 huri) hdelays).congr rfl (document_withDocument_of_ne hknows' huri source)
  cases hchange : (s.withDocument uri source).settings.evaluateOnChange with
  | false =>
      rw [schedule_of_off hchange] at hknows hdelays ⊢
      refine hother (fun huri => ?_) hknows hdelays
      exact Bool.false_ne_true (hchange.symm.trans (hdue.1 huri))
  | true =>
      rw [schedule_of_on hchange] at hknows hdelays ⊢
      have huri : uri' ≠ uri := fun huri => hdelays _ (List.mem_append_right _ List.mem_cons_self) huri.symm
      refine hother huri hknows fun d hd huri' => ?_
      have hleft := (hothers.mem d).2 ⟨hd, by rwa [huri']⟩
      exact hdelays d (List.mem_append_left _ hleft) huri'

/-- A document that is closed is not due any more. -/
theorem closed (h : s.IsTold due ps) (hkept : s.IsKept) (uri : String) :
    (s.close uri).IsTold due (ps ++ [⟨uri, []⟩]) := by
  intro uri' hknows hdue hdelays
  rw [close_eq] at hknows hdelays ⊢
  have huri : uri' ≠ uri := by
    rintro rfl
    simp [Knows] at hknows
  have hknows' : s.Knows uri' := by
    simpa [Knows, huri] using hknows
  have hdelays' : ∀ d ∈ s.delays, d.uri ≠ uri' := by
    rintro d hd rfl
    exact hdelays d (((others_cancel hkept.noted uri).mem d).2 ⟨hd, huri⟩) rfl
  refine IsUpToDate.concat (p := ⟨uri, []⟩) ?_ (Ne.symm huri)
  exact (h uri' hknows' hdue hdelays').congr rfl (document_congr hknows' (by simp [huri]))

/-- What the workspace has for documents that are not open does not matter. -/
theorem stored (h : s.IsTold due ps) (workspace : Workspace) :
    (s.withWorkspace workspace).IsTold due ps :=
  fun uri hknows hdue hdelays => (h uri hknows hdue hdelays).congr rfl (document_congr hknows rfl)

/-- A delay that passes brings its document up to date. -/
theorem fire (h : s.IsTold due ps) (hkept : s.IsKept) (number : Nat) :
    (s.fire number).1.IsTold due (ps ++ (s.fire number).2.published) := by
  rcases fire_cases s number with ⟨-, hfire⟩ | ⟨d, hd, rfl, hfire⟩ <;> rw [hfire]
  · simpa using h
  · intro uri hknows hdue hdelays
    have hknows' : (s.revalidate d.uri).1.Knows uri := hknows
    have hdue' : uri = d.uri ∨ due uri := .inr hdue
    by_cases huri : uri = d.uri
    · exact hkept.sound.isUpToDate_validate rfl (.inl huri)
    · refine h.revalidate hkept.sound d.uri uri hknows' hdue' fun d' hd' huri' => ?_
      rw [revalidate_eq] at hd'
      have hne : d'.uri ≠ d.uri := by rwa [huri']
      exact hdelays d' (((hkept.noted.others_without hd).mem d').2 ⟨hd', hne⟩) huri'

end IsTold

/-! ### What a step does -/

theorem knows_of_documents_eq (h : t.documents = s.documents) (uri : String) : t.Knows uri ↔ s.Knows uri := by
  rw [Knows, Knows, h]

/-- Exactly the open documents have evaluations that are kept. -/
theorem IsKept.mem_names (h : s.IsKept) (uri : String) : uri ∈ s.cache.names ↔ s.Knows uri := by
  rw [← h.cached, Bindings.isSome_get?, Bindings.contains, List.contains_iff_mem]

/-- Other settings leave what fits together. -/
theorem IsKept.configure (h : s.IsKept) {fields : List (String × ClientValue)} (ht : s.configure fields = .ok t) :
    t.IsKept ∧ t.documents = s.documents := by
  rw [configure_eq ht]
  exact ⟨⟨h.sound.of_cache_eq rfl, h.cached, h.noted, h.knows⟩, rfl⟩

/-- Only the document that is evaluated is published. -/
theorem IsSound.uri_of_mem_revalidate (h : s.IsSound) {p : Publication}
    (hp : p ∈ (s.revalidate uri).2.published) : p.uri = uri := by
  obtain ⟨-, p', hp', huri, -⟩ := h.refl.validate uri (s.document uri)
  rw [Server.revalidate, hp', List.mem_singleton] at hp
  rw [hp, huri]

/-- **Documents that are evaluated one after the other** are up to date then, and no others are published. -/
theorem IsKept.forEach_revalidate (h : s.IsKept) {uris : List String} (huris : ∀ uri ∈ uris, s.Knows uri)
    (ps : List Publication) :
    (forEach Server.revalidate s uris).1.IsKept ∧ (forEach Server.revalidate s uris).1.documents = s.documents ∧
      (∀ p ∈ (forEach Server.revalidate s uris).2.published, p.uri ∈ uris) ∧
      ∀ uri, uri ∈ uris ∨ s.IsUpToDate ps uri →
        (forEach Server.revalidate s uris).1.IsUpToDate
          (ps ++ (forEach Server.revalidate s uris).2.published) uri := by
  induction uris generalizing s ps with
  | nil => exact ⟨h, rfl, fun p hp => (by cases hp), fun uri huri => by simpa [forEach] using huri⟩
  | cons uri uris ih =>
      have hsame := (h.sound.refl.revalidate uri).1
      have hknows := knows_of_documents_eq hsame.documents
      obtain ⟨hkept, hdocuments, hpublished, huptodate⟩ := ih (h.revalidate (huris uri List.mem_cons_self))
        (fun uri' huri' => (hknows uri').2 (huris uri' (List.mem_cons_of_mem _ huri')))
        (ps ++ (s.revalidate uri).2.published)
      rw [forEach, Effects.published_append, ← List.append_assoc]
      refine ⟨hkept, hdocuments.trans hsame.documents, fun p hp => ?_, fun uri' huri' => huptodate uri' ?_⟩
      · rcases List.mem_append.1 hp with hp | hp
        · exact List.mem_cons.2 (.inl (h.sound.uri_of_mem_revalidate hp))
        · exact List.mem_cons_of_mem _ (hpublished p hp)
      · rw [List.mem_cons] at huri'
        rcases huri' with (rfl | huri') | huri'
        · exact .inr (h.sound.isUpToDate_validate rfl (.inl rfl))
        · exact .inl huri'
        · exact .inr (h.sound.isUpToDate_validate rfl (.inr huri'))

/-- A client changes and saves open documents only. -/
def Accepts (s : Server) : Event → Prop
  | .changed uri _ => s.Knows uri
  | .saved uri => s.Knows uri
  | _ => True

/-- A delay that passes keeps what fits together, and only its document is published. -/
theorem IsKept.fire_knows (h : s.IsKept) (number : Nat) :
    ((s.fire number).1.IsKept ∧ (s.fire number).1.documents = s.documents) ∧
      ∀ p ∈ (s.fire number).2.published, s.Knows p.uri := by
  have hkept := h.fire number
  rcases fire_cases s number with ⟨-, hfire⟩ | ⟨d, hd, -, hfire⟩ <;> rw [hfire] at hkept ⊢
  · exact ⟨⟨hkept, rfl⟩, fun p hp => by cases hp⟩
  · refine ⟨⟨hkept, (h.sound.refl.revalidate d.uri).1.documents⟩, fun p hp => ?_⟩
    rw [h.sound.uri_of_mem_revalidate hp]
    exact h.knows d hd

/-- What a step does to the documents: what is kept still fits together, one that is opened is open then and one
that is closed is not, and only documents that are open then are published, or the one that is closed. -/
structure Advances (s : Server) (event : Event) (r : Server × Effects) : Prop where
  kept : r.1.IsKept
  knows : ∀ uri, r.1.Knows uri ↔ (∃ source, event = .opened uri source) ∨ s.Knows uri ∧ event ≠ .closed uri
  published : ∀ p ∈ r.2.published, event = .closed p.uri ∨ r.1.Knows p.uri

namespace IsKept

/-- A step that leaves the documents as they are, and publishes some of them. -/
theorem advances {r : Server × Effects} (hkept : r.1.IsKept) (hdocuments : r.1.documents = s.documents)
    {event : Event} (hopened : ∀ uri source, event ≠ .opened uri source) (hclosed : ∀ uri, event ≠ .closed uri)
    (hpublished : ∀ p ∈ r.2.published, s.Knows p.uri) : s.Advances event r where
  kept := hkept
  knows uri := by
    rw [knows_of_documents_eq hdocuments, and_iff_left (hclosed uri),
      or_iff_right fun ⟨source, h⟩ => hopened uri source h]
  published p hp := .inr ((knows_of_documents_eq hdocuments p.uri).2 (hpublished p hp))

theorem advances_opened (h : s.IsKept) (uri source : String) :
    s.Advances (.opened uri source) ((s.withDocument uri source).validate uri source) := by
  have hsound : (s.withDocument uri source).IsSound := h.sound.of_cache_eq rfl
  obtain ⟨hsame, p, hp, hpuri, -⟩ := hsound.refl.validate uri source
  have hknows (uri' : String) : ((s.withDocument uri source).validate uri source).1.Knows uri' ↔
      uri' = uri ∨ s.Knows uri' :=
    (knows_of_documents_eq hsame.documents uri').trans (knows_withDocument ..)
  refine ⟨h.opened uri source, fun uri' => (hknows uri').trans ?_, fun p' hp' => .inr ((hknows p'.uri).2 ?_)⟩
  · simp [eq_comm]
  · rw [hp, List.mem_singleton] at hp'
    exact .inl (by rw [hp', hpuri])

theorem advances_changed (h : s.IsKept) (hopen : s.Knows uri) (source : String) :
    s.Advances (.changed uri source) ((s.withDocument uri source).schedule uri, .none) := by
  have hkept := (h.withDocument hopen source).schedule ((knows_withDocument ..).2 (.inl rfl))
  have hdocuments : ((s.withDocument uri source).schedule uri).documents =
      (s.withDocument uri source).documents := by rw [schedule_eq]
  refine ⟨hkept, fun uri' => ?_, fun p hp => by cases hp⟩
  rw [knows_of_documents_eq hdocuments, knows_withDocument, or_iff_right_of_imp]
  · simp
  · rintro rfl
    exact hopen

theorem advances_closed (h : s.IsKept) (uri : String) :
    s.Advances (.closed uri) (s.close uri, publish uri [] 0) := by
  refine ⟨h.close uri, fun uri' => ?_, fun p hp => .inl ?_⟩
  · rw [close_eq]
    show ((s.documents.erase uri).get? uri').isSome = true ↔ _
    rw [Bindings.get?_erase]
    by_cases huri : uri' = uri
    · simp [huri]
    · rw [if_neg huri]
      simp [Knows, Ne.symm huri]
  · obtain rfl : p = ⟨uri, []⟩ := List.mem_singleton.1 hp
    rfl

/-- Other settings have exactly the open documents evaluated. -/
theorem advances_configured (h : s.IsKept) {configuration : ClientValue}
    (ht : s.configure (Settings.sectionOf configuration) = .ok t) :
    s.Advances (.configured configuration) (forEach Server.revalidate t t.cache.names) := by
  obtain ⟨hkept, hdocuments⟩ := h.configure ht
  obtain ⟨hkept', hdocuments', hpublished, -⟩ :=
    hkept.forEach_revalidate (fun uri huri => (hkept.mem_names uri).1 huri) []
  refine hkept'.advances (hdocuments'.trans hdocuments) (by simp) (by simp) fun p hp => ?_
  exact (knows_of_documents_eq hdocuments p.uri).1 ((hkept.mem_names p.uri).1 (hpublished p hp))

theorem advances_settled (h : s.IsKept) : s.Advances .settled s.settle := by
  have hfire (t : Server) (number : Nat) (ht : t.IsKept ∧ t.documents = s.documents) :
      ((t.fire number).1.IsKept ∧ (t.fire number).1.documents = s.documents) ∧
        ∀ p ∈ (t.fire number).2.published, s.Knows p.uri := by
    obtain ⟨⟨hkept, hdocuments⟩, hpublished⟩ := ht.1.fire_knows number
    exact ⟨⟨hkept, hdocuments.trans ht.2⟩, fun p hp => (knows_of_documents_eq ht.2 p.uri).1 (hpublished p hp)⟩
  obtain ⟨⟨hkept, hdocuments⟩, hpublished⟩ := forEach_induction hfire ⟨h, rfl⟩ (s.delays.map Delay.number)
  exact hkept.advances hdocuments (by simp) (by simp) hpublished

/-- **Each step keeps what fits together.** -/
theorem handle (h : s.IsKept) {event : Event} (haccepts : s.Accepts event) :
    s.Advances event ((s.handle event).server, (s.handle event).effects) := by
  cases event with
  | initialized options =>
      rw [Server.handle]
      split
      · exact h.advances (r := (s, .none)) rfl (by simp) (by simp) (by simp)
      · next t ht =>
          obtain ⟨hkept, hdocuments⟩ := h.configure ht
          exact hkept.advances (r := (t, .none)) hdocuments (by simp) (by simp) (by simp)
  | opened uri source => exact h.advances_opened uri source
  | changed uri source => exact h.advances_changed haccepts source
  | saved uri =>
      have hopen : s.Knows uri := haccepts
      have hdocuments := (h.sound.refl.revalidate uri).1.documents
      refine (h.revalidate hopen).advances hdocuments (by simp) (by simp) fun p hp => ?_
      rw [h.sound.uri_of_mem_revalidate hp]
      exact hopen
  | closed uri => exact h.advances_closed uri
  | configured configuration =>
      rw [Server.handle]
      split
      · exact h.advances (r := (s, .none)) rfl (by simp) (by simp) (by simp)
      · next t ht => exact h.advances_configured ht
  | hovered uri line character => exact h.advances (r := (s, .none)) rfl (by simp) (by simp) (by simp)
  | stored workspace =>
      exact (h.withWorkspace workspace).advances (s := s) (r := (s.withWorkspace workspace, .none)) rfl (by simp)
        (by simp) (by simp)
  | fired number =>
      obtain ⟨⟨hkept, hdocuments⟩, hpublished⟩ := h.fire_knows number
      exact hkept.advances hdocuments (by simp) (by simp) hpublished
  | settled => exact h.advances_settled

end IsKept

end Server

end Editor

end MatrixCalc
