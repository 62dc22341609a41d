/-
**The last evaluation of a document stands for no other one.**

The server does not evaluate a text again if it has evaluated it before with the same tolerance.  Nothing shows
that it has not: an evaluation that is kept is what evaluating its text from the start gives, with its tolerance,
and it is taken for no other text and no other tolerance, since tolerances that are written alike are equal.  This
holds whatever has happened to the server.

Main definitions:

* `MatrixCalc.Editor.Evaluation.IsSound`, `MatrixCalc.Editor.Server.IsSound` — an evaluation is what evaluating its
  text gives, and so are all that a server keeps;
* `MatrixCalc.Editor.Publication.IsFresh` — what is published is the reports of a text;
* `MatrixCalc.Editor.Server.Knows` — a document is open.

Main results:

* `MatrixCalc.Editor.exists_evaluate` — every text can be evaluated;
* `MatrixCalc.Editor.Evaluation.standsFor_iff` — an evaluation stands for its text and its tolerance only;
* `MatrixCalc.Editor.Server.IsSound.validate` — what validating a text does;
* `MatrixCalc.Editor.Server.handleAll_transparent` — **nothing shows that evaluations are kept**.
-/

import MatrixCalc.Editor.Server
import MatrixCalc.Proofs.Decimal.Written
import MatrixCalc.Proofs.Session.Totality

set_option autoImplicit false

namespace MatrixCalc

namespace Editor

/-! ### Evaluations -/

/-- Every text can be evaluated. -/
theorem exists_evaluate (settings : Settings) (source : String) : ∃ e, evaluate settings source = .ok e := by
  have htolerance : 0 ≤ (Session.start settings.context).context.zeroTolerance := settings.nonneg
  obtain ⟨report, hreport⟩ := Session.exists_report htolerance source
  exact ⟨_, by rw [evaluate, hreport]; rfl⟩

/-- An evaluation is of the text and of the tolerance that it was made with. -/
theorem evaluate_fields {settings : Settings} {source : String} {e : Evaluation}
    (h : evaluate settings source = .ok e) : e.source = source ∧ e.zeroTolerance = settings.zeroTolerance := by
  rw [evaluate] at h
  cases hresult : ((Session.start settings.context).run source).result with
  | error failure =>
      rw [hresult] at h
      cases h
  | ok report =>
      rw [hresult] at h
      obtain rfl := Except.ok.inj h
      exact ⟨rfl, rfl⟩

/-- Evaluation depends on the tolerance, and on no other setting. -/
theorem evaluate_congr {settings settings' : Settings} (h : settings.zeroTolerance = settings'.zeroTolerance)
    (source : String) : evaluate settings source = evaluate settings' source := by
  have hcontext : settings.context = settings'.context := by
    unfold Settings.context
    congr
  rw [evaluate, evaluate, hcontext, h]

namespace Evaluation

variable {e : Evaluation} {settings : Settings} {source : String}

/-- **An evaluation stands for its text and its tolerance only.** -/
theorem standsFor_iff :
    e.standsFor settings source = true ↔ e.source = source ∧ e.zeroTolerance = settings.zeroTolerance := by
  rw [standsFor, Bool.and_eq_true, beq_iff_eq, beq_iff_eq, Decimal.write_injective.eq_iff]

/-- An evaluation is what evaluating its text from the start gives. -/
def IsSound (e : Evaluation) : Prop := ∃ settings, evaluate settings e.source = .ok e

theorem IsSound.of_evaluate (h : evaluate settings source = .ok e) : e.IsSound :=
  ⟨settings, (evaluate_fields h).1 ▸ h⟩

/-- What an evaluation stands for is evaluated to it. -/
theorem IsSound.evaluate_eq (h : e.IsSound) (hstands : e.standsFor settings source = true) :
    evaluate settings source = .ok e := by
  obtain ⟨settings', h'⟩ := h
  obtain ⟨hsource, htolerance⟩ := standsFor_iff.1 hstands
  have htolerance' := htolerance.symm.trans (evaluate_fields h').2
  rw [← hsource, evaluate_congr htolerance', h']

/-- An evaluation stands for something. -/
theorem IsSound.exists_standsFor (h : e.IsSound) : ∃ settings source, e.standsFor settings source = true := by
  obtain ⟨settings, h'⟩ := h
  exact ⟨settings, e.source, standsFor_iff.2 ⟨rfl, (evaluate_fields h').2⟩⟩

end Evaluation

/-! ### Publications -/

/-- What is published is the reports of a text that is evaluated from the start. -/
def Publication.IsFresh (p : Publication) (settings : Settings) (source : String) : Prop :=
  ∃ e, evaluate settings source = .ok e ∧ p.reports = Editor.reports source e.diagnostics

@[simp] theorem Effects.published_none : Effects.none.published = [] := rfl

@[simp] theorem Effects.published_append (e f : Effects) :
    (e.append f).published = e.published ++ f.published := rfl

namespace Server

variable {s : Server}

/-- All evaluations that a server keeps are what evaluating their texts gives. -/
def IsSound (s : Server) : Prop := ∀ uri e, s.cache.get? uri = some e → e.IsSound

@[simp] theorem published_publish (uri : String) (rs : List Report) (n : Nat) :
    (publish uri rs n).published = [⟨uri, rs⟩] := rfl

/-- The server with other evaluations. -/
def withCache (s : Server) (cache : Bindings Evaluation) : Server := { s with cache := cache }

/-- **What validating a text does**: the reports of the text are published, and its evaluation is kept. -/
theorem IsSound.validate (h : s.IsSound) (uri source : String) :
    ∃ e n cache, evaluate s.settings source = .ok e ∧
      s.validate uri source = (s.withCache cache, publish uri (reports source e.diagnostics) n) ∧
      ∀ uri', cache.get? uri' = if uri' = uri then some e else s.cache.get? uri' := by
  unfold Server.validate
  cases hcached : s.cached? uri source with
  | some e =>
      obtain ⟨hget, hstands⟩ : s.cache.get? uri = some e ∧ e.standsFor s.settings source = true := by
        simpa [cached?, Option.filter_eq_some_iff] using hcached
      refine ⟨e, 0, s.cache, (h uri e hget).evaluate_eq hstands, rfl, fun uri' => ?_⟩
      split
      · next huri => rw [huri, hget]
      · rfl
  | none =>
      obtain ⟨e, he⟩ := exists_evaluate s.settings source
      refine ⟨e, 1, s.cache.set uri e, he, ?_, fun uri' => Bindings.get?_set ..⟩
      simp only [he]
      rfl

/-! ### Documents -/

/-- An open document has its own text, whatever the workspace has for others. -/
theorem document_of_get? {uri source : String} (h : s.documents.get? uri = some source) :
    s.document uri = source := s.workspace.text_of_open h

/-- A document is open. -/
def Knows (s : Server) (uri : String) : Prop := (s.documents.get? uri).isSome = true

/-- The text of an open document depends on nothing but what the client has sent for it. -/
theorem document_congr {t : Server} {uri : String} (h : s.Knows uri)
    (hget : t.documents.get? uri = s.documents.get? uri) : t.document uri = s.document uri := by
  obtain ⟨source, hsource⟩ := Option.isSome_iff_exists.1 h
  rw [document_of_get? hsource, document_of_get? (hget.trans hsource)]

/-- The server with another text of a document. -/
def withDocument (s : Server) (uri source : String) : Server :=
  { s with documents := s.documents.set uri source }

theorem document_withDocument_self (s : Server) (uri source : String) :
    (s.withDocument uri source).document uri = source :=
  document_of_get? ((Bindings.get?_set ..).trans (if_pos rfl))

/-- The server in another workspace. -/
def withWorkspace (s : Server) (workspace : Workspace) : Server := { s with workspace := workspace }

/-! ### One step -/

/-- A server keeps sound evaluations, and has the settings and the documents of another one. -/
structure IsSoundAs (s t : Server) : Prop where
  sound : t.IsSound
  settings : t.settings = s.settings
  workspace : t.workspace = s.workspace
  documents : t.documents = s.documents

theorem IsSound.refl (h : s.IsSound) : s.IsSoundAs s := ⟨h, rfl, rfl, rfl⟩

/-- **What is done for one document or delay after the other** keeps what each time keeps, and what has been published
before counts. -/
theorem forEach_accumulates {α : Type} {f : Server → α → Server × Effects} {P : Server → List Publication → Prop}
    (hf : ∀ s ps x, P s ps → P (f s x).1 (ps ++ (f s x).2.published)) {ps : List Publication} (h : P s ps)
    (xs : List α) : P (forEach f s xs).1 (ps ++ (forEach f s xs).2.published) := by
  induction xs generalizing s ps with
  | nil => simpa [forEach] using h
  | cons x xs ih => simpa [forEach, List.append_assoc] using ih (hf s ps x h)

/-- What each time has and publishes, the whole has and publishes. -/
theorem forEach_induction {α : Type} {f : Server → α → Server × Effects} {P : Server → Prop}
    {Q : Publication → Prop} (hf : ∀ s x, P s → P (f s x).1 ∧ ∀ p ∈ (f s x).2.published, Q p) (h : P s)
    (xs : List α) : P (forEach f s xs).1 ∧ ∀ p ∈ (forEach f s xs).2.published, Q p := by
  have hstep (s : Server) (ps : List Publication) (x : α) (hs : P s ∧ ∀ p ∈ ps, Q p) :
      P (f s x).1 ∧ ∀ p ∈ ps ++ (f s x).2.published, Q p := by
    obtain ⟨hP, hQ⟩ := hf s x hs.1
    exact ⟨hP, fun p hp => (List.mem_append.1 hp).elim (hs.2 p) (hQ p)⟩
  have hstart : P s ∧ ∀ p ∈ ([] : List Publication), Q p := ⟨h, fun p hp => by cases hp⟩
  simpa using forEach_accumulates hstep hstart xs

namespace IsSoundAs

variable {t : Server}

/-- A text that is validated is evaluated with the settings. -/
theorem validate (h : s.IsSoundAs t) (uri source : String) :
    s.IsSoundAs (t.validate uri source).1 ∧
      ∃ p, (t.validate uri source).2.published = [p] ∧ p.uri = uri ∧ p.IsFresh s.settings source := by
  obtain ⟨e, n, cache, he, hvalidate, hcache⟩ := h.sound.validate uri source
  rw [hvalidate]
  refine ⟨⟨fun uri' e' hget => ?_, h.settings, h.workspace, h.documents⟩, ⟨uri, reports source e.diagnostics⟩, rfl,
    rfl, e, ?_, rfl⟩
  · replace hget : cache.get? uri' = some e' := hget
    rw [hcache] at hget
    split at hget
    · obtain rfl := Option.some.inj hget
      exact .of_evaluate he
    · exact h.sound uri' e' hget
  · rw [← h.settings, he]

theorem document_eq (h : s.IsSoundAs t) (uri : String) : t.document uri = s.document uri := by
  rw [document, document, h.workspace, h.documents]

theorem isFresh (h : s.IsSoundAs t) {p : Publication} (hp : p.IsFresh s.settings (s.document p.uri)) :
    p.IsFresh t.settings (t.document p.uri) := by
  rwa [h.settings, h.document_eq]

theorem revalidate (h : s.IsSoundAs t) (uri : String) :
    s.IsSoundAs (t.revalidate uri).1 ∧
      ∀ p ∈ (t.revalidate uri).2.published, p.IsFresh s.settings (s.document p.uri) := by
  obtain ⟨hsound, p, hp, rfl, hfresh⟩ := h.validate uri (t.document uri)
  refine ⟨hsound, fun p' hp' => ?_⟩
  rw [Server.revalidate, hp, List.mem_singleton] at hp'
  rw [hp', ← h.document_eq]
  exact hfresh

theorem fire (h : s.IsSoundAs t) (number : Nat) :
    s.IsSoundAs (t.fire number).1 ∧
      ∀ p ∈ (t.fire number).2.published, p.IsFresh s.settings (s.document p.uri) := by
  unfold Server.fire
  split
  · exact ⟨h, fun p hp => by cases hp⟩
  · next d _ =>
      obtain ⟨hsound, hfresh⟩ := h.revalidate d.uri
      exact ⟨⟨hsound.sound, hsound.settings, hsound.workspace, hsound.documents⟩, hfresh⟩

end IsSoundAs

/-- A delay that is stopped changes nothing else. -/
theorem cancel_eq (s : Server) (uri : String) : s.cancel uri = { s with delays := (s.cancel uri).delays } := by
  unfold cancel
  split <;> rfl

/-- A delay that is started changes nothing that is kept or published. -/
theorem schedule_eq (s : Server) (uri : String) :
    s.schedule uri = { s with
      timers := (s.schedule uri).timers
      delays := (s.schedule uri).delays
      clock := (s.schedule uri).clock } := by
  unfold schedule
  split
  · rw [cancel_eq]
  · rfl

/-- Settings change nothing that is kept. -/
theorem configure_eq {fields : List (String × ClientValue)} {t : Server} (h : s.configure fields = .ok t) :
    t = { s with settings := t.settings } := by
  unfold configure at h
  cases happly : s.settings.apply fields with
  | error e =>
      rw [happly] at h
      cases h
  | ok settings =>
      rw [happly] at h
      obtain rfl := Except.ok.inj h
      rfl

/-- A server with other settings, documents and delays keeps what it does. -/
theorem IsSound.of_cache_eq {t : Server} (h : s.IsSound) (hcache : t.cache = s.cache) : t.IsSound :=
  fun uri e hget => h uri e (hcache ▸ hget)

/-- What is published is fresh, unless it is that there are no reports of a document that is closed. -/
def IsFreshStep (event : Event) (step : Step) : Prop :=
  ∀ p ∈ step.effects.published, event = .closed p.uri ∧ p.reports = [] ∨
    p.IsFresh step.server.settings (step.server.document p.uri)

theorem IsSoundAs.isFreshStep {r : Server × Effects} (h : s.IsSoundAs r.1)
    (hr : ∀ p ∈ r.2.published, p.IsFresh s.settings (s.document p.uri)) (event : Event) :
    r.1.IsSound ∧ IsFreshStep event (silent r) :=
  ⟨h.sound, fun p hp => .inr (h.isFresh (hr p hp))⟩

/-- **What a step publishes is fresh**, and the server goes on to keep what is sound. -/
theorem IsSound.handle (h : s.IsSound) (event : Event) :
    (s.handle event).server.IsSound ∧ IsFreshStep event (s.handle event) := by
  cases event with
  | initialized options =>
      rw [Server.handle]
      split
      · exact ⟨h, fun p hp => by cases hp⟩
      · next t hconfigure =>
          have ht := configure_eq hconfigure
          exact ⟨h.of_cache_eq (by rw [silent, ht]), fun p hp => by cases hp⟩
  | opened uri source =>
      have hopen : (s.withDocument uri source).IsSound := h.of_cache_eq rfl
      obtain ⟨hsound, p, hp, rfl, hfresh⟩ := hopen.refl.validate uri source
      refine hsound.isFreshStep (fun p' hp' => ?_) _
      rw [hp, List.mem_singleton] at hp'
      rwa [hp', document_withDocument_self]
  | changed uri source =>
      refine ⟨h.of_cache_eq ?_, fun p hp => by cases hp⟩
      rw [Server.handle, silent, schedule_eq]
  | saved uri =>
      obtain ⟨hsound, hfresh⟩ := h.refl.revalidate uri
      exact hsound.isFreshStep hfresh _
  | closed uri =>
      refine ⟨fun uri' e hget => ?_, fun p hp => .inl ?_⟩
      · replace hget : (s.cache.erase uri).get? uri' = some e := hget
        rw [Bindings.get?_erase] at hget
        split at hget
        · cases hget
        · exact h uri' e hget
      · obtain rfl : p = ⟨uri, []⟩ := List.mem_singleton.1 hp
        exact ⟨rfl, rfl⟩
  | configured configuration =>
      rw [Server.handle]
      split
      · exact ⟨h, fun p hp => by cases hp⟩
      · next t hconfigure =>
          have ht : t.IsSound := h.of_cache_eq (by rw [configure_eq hconfigure])
          obtain ⟨hsound, hfresh⟩ := forEach_induction (fun _ uri hu => hu.revalidate uri) ht.refl t.cache.names
          exact hsound.isFreshStep hfresh _
  | hovered uri line character => exact ⟨h, fun p hp => by cases hp⟩
  | stored workspace => exact ⟨h.of_cache_eq rfl, fun p hp => by cases hp⟩
  | fired number =>
      obtain ⟨hsound, hfresh⟩ := h.refl.fire number
      exact hsound.isFreshStep hfresh _
  | settled =>
      obtain ⟨hsound, hfresh⟩ := forEach_induction (fun _ number hu => hu.fire number) h.refl
        (s.delays.map Delay.number)
      exact hsound.isFreshStep hfresh _

/-! ### Any number of steps -/

theorem isSound_start (w : Workspace) : (start w).IsSound := fun uri e hget => by cases hget

/-- What a server keeps stays sound, whatever happens. -/
theorem IsSound.handleAll (h : s.IsSound) (es : List Event) : (s.handleAll es).1.IsSound := by
  induction es generalizing s with
  | nil => exact h
  | cons e es ih => exact ih (h.handle e).1

/-- **Nothing shows that evaluations are kept.**  Whatever has happened to a server, each evaluation that it keeps
stands for something, and is what evaluating anything gives that it stands for.  Whatever happens next, all that is
published are the reports of the text of the document, evaluated from the start with the settings that the server
has then; but a document that is closed has no reports.  And a text that is validated, be it evaluated or not, has
the reports published that evaluating it gives. -/
theorem handleAll_transparent (w : Workspace) (es : List Event) (event : Event) :
    let s := ((start w).handleAll es).1
    (∀ uri e, s.cache.get? uri = some e →
      (∃ settings source, e.standsFor settings source = true) ∧
        ∀ settings source, e.standsFor settings source = true → evaluate settings source = .ok e) ∧
    (∀ p ∈ (s.handle event).effects.published, event = .closed p.uri ∧ p.reports = [] ∨
      p.IsFresh (s.handle event).server.settings ((s.handle event).server.document p.uri)) ∧
    ∀ uri source, ∃ e, evaluate s.settings source = .ok e ∧
      (s.validate uri source).2.published = [⟨uri, reports source e.diagnostics⟩] := by
  intro s
  have hs : s.IsSound := (isSound_start w).handleAll es
  refine ⟨fun uri e hget => ⟨(hs uri e hget).exists_standsFor, fun settings source => (hs uri e hget).evaluate_eq⟩,
    (hs.handle event).2, fun uri source => ?_⟩
  obtain ⟨e, n, cache, he, hvalidate, -⟩ := hs.validate uri source
  exact ⟨e, he, by rw [hvalidate, published_publish]⟩

end Server

end Editor

end MatrixCalc
