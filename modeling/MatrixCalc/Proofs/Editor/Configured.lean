/-
**Settings that a client sends.**

A client may send anything as a setting.  What cannot be used leaves its setting as it was, and the other ones are
taken; if the configuration has changed, all evaluated documents are evaluated again.  The tolerance is a number
that is not negative all the time, so that texts can always be evaluated.

There is one exception.  A whole number that is beyond all doubles, given for the tolerance, is not left out: nothing
that is sent with it is taken, and no document is evaluated.

Main definitions:

* `MatrixCalc.Editor.SendsTolerance`, `MatrixCalc.Editor.SendsTooLarge` — a tolerance that can be taken, and one
  that nothing can be done with;
* `MatrixCalc.Editor.Settings.Takes` — each setting is taken, or left as it was;
* `MatrixCalc.Editor.Event.sent?` — the settings that a client sends with an event;
* `MatrixCalc.Editor.Server.Reevaluates` — documents have been evaluated again.

Main results:

* `MatrixCalc.Editor.Settings.apply_cases` — what becomes of settings that a client sends;
* `MatrixCalc.Editor.Server.IsSoundAs.forEach_revalidate` — **each document is evaluated again, with the settings**;
* `MatrixCalc.Editor.Server.handle_sent` — **settings are taken, unless the tolerance is beyond all doubles**;
* `MatrixCalc.Editor.Server.handle_tooLarge` — a tolerance beyond all doubles keeps the other settings out.
-/

import MatrixCalc.Proofs.Editor.Published

set_option autoImplicit false

namespace MatrixCalc

namespace Editor

variable {fields : List (String × ClientValue)}

/-! ### What becomes of settings -/

/-- A client sends data for the tolerance that stand for the number `x`, which is not negative. -/
def SendsTolerance (fields : List (String × ClientValue)) (x : Float) : Prop :=
  ∃ v, fields.lookup Settings.toleranceKey = some v ∧ v.number? = .ok (some x) ∧ 0 ≤ x

/-- A client sends a whole number for the tolerance that is beyond all doubles. -/
def SendsTooLarge (fields : List (String × ClientValue)) : Prop :=
  ∃ n, fields.lookup Settings.toleranceKey = some (.whole n) ∧ ClientValue.ofWhole n = .error .tooLarge

/-- Nothing but a whole number fails to be a number or not. -/
theorem ClientValue.number?_eq_error_iff {v : ClientValue} {e : SettingError} :
    v.number? = .error e ↔ ∃ n, v = .whole n ∧ ofWhole n = .error e := by
  cases v with
  | whole n =>
      simp only [number?, whole.injEq, exists_eq_left']
      cases ofWhole n <;> simp [Except.map]
  | _ => simp [number?]

namespace Settings

variable {s t : Settings}

/-- Of the settings that a client sends each one is taken if it can be used, whatever the other ones are, and else it
is as it was. -/
structure Takes (s : Settings) (fields : List (String × ClientValue)) (t : Settings) : Prop where
  tolerance (x : Float) (h : SendsTolerance fields x) : t.zeroTolerance = x
  /-- Without a tolerance that can be taken, the old one stays. -/
  unusable (h : ∀ x, ¬ SendsTolerance fields x) : t.zeroTolerance = s.zeroTolerance
  /-- All data say whether texts are evaluated during changes. -/
  onChange (v : ClientValue) (h : fields.lookup onChangeKey = some v) : t.evaluateOnChange = v.isTrue
  unsent (h : fields.lookup onChangeKey = none) : t.evaluateOnChange = s.evaluateOnChange

@[simp] theorem evaluateOnChange_setTolerance (s : Settings) (x : Float) :
    (s.setTolerance x).evaluateOnChange = s.evaluateOnChange := by
  unfold setTolerance
  split <;> rfl

@[simp] theorem zeroTolerance_applyOnChange (s : Settings) (fields : List (String × ClientValue)) :
    (s.applyOnChange fields).zeroTolerance = s.zeroTolerance := by
  unfold applyOnChange
  split <;> rfl

/-- The tolerance fails if it is beyond all doubles.  Else it is taken or left as it was, and nothing else changes. -/
theorem applyTolerance_cases (s : Settings) (fields : List (String × ClientValue)) :
    SendsTooLarge fields ∧ s.applyTolerance fields = .error .tooLarge ∨
      ¬ SendsTooLarge fields ∧ ∃ t, s.applyTolerance fields = .ok t ∧
        (∀ x, SendsTolerance fields x → t.zeroTolerance = x) ∧
        ((∀ x, ¬ SendsTolerance fields x) → t.zeroTolerance = s.zeroTolerance) ∧
        t.evaluateOnChange = s.evaluateOnChange := by
  unfold applyTolerance SendsTolerance SendsTooLarge
  cases hlookup : fields.lookup toleranceKey with
  | none => exact .inr ⟨by simp, s, rfl, by simp, fun _ => rfl, rfl⟩
  | some v =>
      cases hnumber : v.number? with
      | error e =>
          obtain ⟨n, rfl, hn⟩ := ClientValue.number?_eq_error_iff.1 hnumber
          cases e
          exact .inl ⟨⟨n, rfl, hn⟩, by simp only [hnumber]; rfl⟩
      | ok x? =>
          refine .inr ⟨?_, _, by simp only [hnumber]; rfl, ?_⟩
          · rintro ⟨n, hv, hn⟩
            have herror := ClientValue.number?_eq_error_iff.2 ⟨n, Option.some.inj hv, hn⟩
            rw [hnumber] at herror
            cases herror
          · simp only [Option.some.injEq, exists_eq_left', hnumber, Except.ok.injEq]
            cases x? with
            | none => exact ⟨by simp, fun _ => rfl, rfl⟩
            | some x =>
                refine ⟨?_, fun hnone => ?_, evaluateOnChange_setTolerance s x⟩
                · rintro x ⟨⟨⟩, hx⟩
                  exact congrArg zeroTolerance (dif_pos hx)
                · exact congrArg zeroTolerance (dif_neg fun hx => hnone x ⟨rfl, hx⟩)

/-- **What becomes of settings that a client sends.**  A tolerance beyond all doubles fails; else each setting is
taken or left as it was. -/
theorem apply_cases (s : Settings) (fields : List (String × ClientValue)) :
    SendsTooLarge fields ∧ s.apply fields = .error .tooLarge ∨
      ¬ SendsTooLarge fields ∧ ∃ t, s.apply fields = .ok t ∧ s.Takes fields t := by
  rcases s.applyTolerance_cases fields with ⟨hlarge, he⟩ | ⟨hlarge, t, ht, htolerance, hunusable, honChange⟩
  · exact .inl ⟨hlarge, by rw [apply, he]; rfl⟩
  · refine .inr ⟨hlarge, t.applyOnChange fields, by rw [apply, ht]; rfl, ?_⟩
    refine ⟨fun x hx => ?_, fun hnone => ?_, fun v hv => ?_, fun hnone => ?_⟩
    · rw [zeroTolerance_applyOnChange, htolerance x hx]
    · rw [zeroTolerance_applyOnChange, hunusable hnone]
    · rw [applyOnChange, hv]
    · rw [applyOnChange, hnone, honChange]

/-- A context of the tolerance can be made. -/
theorem make_zeroTolerance (s : Settings) (crashOnError echo : Bool) :
    ∃ c, Context.make s.zeroTolerance crashOnError echo = .ok c :=
  ⟨_, dif_neg (Decimal.not_lt_of_le s.nonneg)⟩

end Settings

/-- The settings that a client sends with an event, if it sends some. -/
def Event.sent? : Event → Option (List (String × ClientValue))
  | .initialized options => some options.fields
  | .configured configuration => some (Settings.sectionOf configuration)
  | _ => none

namespace Server

/-! ### Documents that are evaluated again -/

/-- The documents `uris` are evaluated again, one after the other: what is published is one list of reports for each,
which are those of its text, evaluated with the settings. -/
def Reevaluates (s : Server) (uris : List String) (ps : List Publication) : Prop :=
  List.Forall₂ (fun uri p => p.uri = uri ∧ p.IsFresh s.settings (s.document uri)) uris ps

theorem IsSoundAs.reevaluates {s t : Server} (h : s.IsSoundAs t) {uris : List String} {ps : List Publication}
    (hps : s.Reevaluates uris ps) : t.Reevaluates uris ps :=
  hps.imp fun uri p ⟨huri, hfresh⟩ => ⟨huri, by rwa [h.settings, h.document_eq]⟩

/-- **Each document is evaluated again, with the settings.** -/
theorem IsSoundAs.forEach_revalidate {s t : Server} (h : s.IsSoundAs t) (uris : List String) :
    s.IsSoundAs (forEach Server.revalidate t uris).1 ∧
      s.Reevaluates uris (forEach Server.revalidate t uris).2.published := by
  induction uris generalizing t with
  | nil => exact ⟨h, .nil⟩
  | cons uri uris ih =>
      obtain ⟨hsound, p, hp, huri, hfresh⟩ := h.validate uri (t.document uri)
      obtain ⟨hsound', hps⟩ := ih hsound
      have hpublished : (forEach Server.revalidate t (uri :: uris)).2.published =
          p :: (forEach Server.revalidate (t.revalidate uri).1 uris).2.published := by
        rw [forEach, Effects.published_append]
        exact congrArg (· ++ _) hp
      rw [h.document_eq] at hfresh
      rw [hpublished]
      exact ⟨hsound', .cons ⟨huri, hfresh⟩ hps⟩

theorem configure_of_apply {s : Server} {t : Settings} (h : s.settings.apply fields = .ok t) :
    s.configure fields = .ok { s with settings := t } := by
  rw [configure, h]
  rfl

theorem configure_of_apply_error {s : Server} {e : SettingError} (h : s.settings.apply fields = .error e) :
    s.configure fields = .error e := by
  rw [configure, h]
  rfl

/-! ### Events with settings -/

variable {event : Event}

/-- A tolerance beyond all doubles fails the event, and nothing is done. -/
theorem handle_of_sendsTooLarge {s : Server} (hsent : event.sent? = some fields) (hlarge : SendsTooLarge fields) :
    s.handle event = ⟨.error .tooLarge, s, .none⟩ := by
  rcases s.settings.apply_cases fields with ⟨-, he⟩ | ⟨h, -⟩
  · have hconfigure := configure_of_apply_error he
    cases event with
    | initialized options =>
        obtain rfl := Option.some.inj hsent
        rw [handle, hconfigure]
    | configured configuration =>
        obtain rfl := Option.some.inj hsent
        rw [handle, hconfigure]
    | _ => cases hsent
  · exact absurd hlarge h

/-- Else each setting is taken or left as it was, and after another configuration all documents that have been
evaluated are evaluated again. -/
theorem IsSound.handle_of_not_sendsTooLarge {s : Server} (h : s.IsSound) (hsent : event.sent? = some fields)
    (hlarge : ¬ SendsTooLarge fields) :
    (s.handle event).result = .ok none ∧ s.settings.Takes fields (s.handle event).server.settings ∧
      ∀ configuration, event = .configured configuration →
        (s.handle event).server.Reevaluates s.cache.names (s.handle event).effects.published := by
  rcases s.settings.apply_cases fields with ⟨h, -⟩ | ⟨-, t, ht, htakes⟩
  · exact absurd h hlarge
  · have hconfigure := configure_of_apply ht
    cases event with
    | initialized options =>
        obtain rfl := Option.some.inj hsent
        rw [Server.handle, hconfigure]
        exact ⟨rfl, htakes, fun configuration h => by cases h⟩
    | configured configuration =>
        obtain rfl := Option.some.inj hsent
        have hsound : ({ s with settings := t } : Server).IsSound := h.of_cache_eq rfl
        obtain ⟨hall, hps⟩ := hsound.refl.forEach_revalidate s.cache.names
        rw [Server.handle, hconfigure]
        refine ⟨rfl, ?_, fun _ _ => hall.reevaluates hps⟩
        exact hall.settings ▸ htakes
    | _ => cases hsent

/-- **Settings are taken, unless the tolerance is beyond all doubles.**  Whatever has happened to a server, and
whatever settings a client sends with an event:

* if the tolerance is not a whole number beyond all doubles, the event is dealt with, and each setting is taken or
  left as it was; if it is another configuration, the documents that have been evaluated are evaluated again, all of
  them and with the new settings;
* if it is, the event fails, and nothing is done;
* the tolerance is a number that is not negative, so that there is a context for it, and every text can be
  evaluated. -/
theorem handle_sent (w : Workspace) (es : List Event) (hsent : event.sent? = some fields) :
    let s := ((start w).handleAll es).1
    let step := s.handle event
    (¬ SendsTooLarge fields →
      step.result = .ok none ∧ s.settings.Takes fields step.server.settings ∧
        ∀ configuration, event = .configured configuration →
          step.server.Reevaluates s.cache.names step.effects.published) ∧
    (SendsTooLarge fields → step = ⟨.error .tooLarge, s, .none⟩) ∧
    0 ≤ step.server.settings.zeroTolerance ∧ step.server.settings.zeroTolerance.isNaN = false ∧
    (∃ c, Context.make step.server.settings.zeroTolerance false false = .ok c) ∧
    ∀ source, ∃ e, evaluate step.server.settings source = .ok e := by
  intro s step
  have hs : s.IsSound := (isSound_start w).handleAll es
  have hnonneg := step.server.settings.nonneg
  exact ⟨hs.handle_of_not_sendsTooLarge hsent, handle_of_sendsTooLarge hsent, hnonneg, Decimal.isNaN_of_le hnonneg,
    step.server.settings.make_zeroTolerance false false, exists_evaluate step.server.settings⟩

/-- A document that has been opened has been evaluated. -/
theorem IsSound.mem_names_opened {s : Server} (h : s.IsSound) (uri source : String) :
    uri ∈ (s.handle (.opened uri source)).server.cache.names := by
  have hopened : ({ s with documents := s.documents.set uri source } : Server).IsSound := h.of_cache_eq rfl
  obtain ⟨e, n, cache, -, hvalidate, hcache⟩ := hopened.validate uri source
  have hget : cache.get? uri = some e := by rw [hcache, if_pos rfl]
  rw [Server.handle, hvalidate, ← List.contains_iff_mem]
  exact (cache.isSome_get? uri).symm.trans (by rw [hget]; rfl)

theorem settings_handle_opened (s : Server) (uri source : String) :
    (s.handle (.opened uri source)).server.settings = s.settings := by
  rw [handle, silent, validate_eq]
  rfl

/-- The configuration of a client that sends a tolerance, and has texts evaluated during changes. -/
def withTolerance (v : ClientValue) : ClientValue :=
  .record [(Settings.sectionKey, .record [(Settings.toleranceKey, v), (Settings.onChangeKey, .flag true)])]

theorem sent?_withTolerance (v : ClientValue) :
    (Event.configured (withTolerance v)).sent? =
      some [(Settings.toleranceKey, v), (Settings.onChangeKey, .flag true)] := rfl

theorem handle_sent_text :
    let s := ((start (.ofFiles fun _ => "")).handleAll [.opened "a" "x = 1"]).1
    let step := s.handle (.configured (withTolerance (.text "nan")))
    step.result = .ok none ∧ step.server.settings.zeroTolerance = s.settings.zeroTolerance ∧
      step.server.settings.evaluateOnChange = true ∧
      step.server.Reevaluates s.cache.names step.effects.published := by
  intro s step
  have hnumber : (ClientValue.text "nan").number? = .ok (some Decimal.quietNaN) := by decide +kernel
  obtain ⟨htaken, -⟩ := handle_sent (.ofFiles fun _ => "") [.opened "a" "x = 1"]
    (sent?_withTolerance (.text "nan"))
  obtain ⟨hresult, htakes, hreevaluates⟩ := htaken (by rintro ⟨n, h, -⟩; cases Option.some.inj h)
  refine ⟨hresult, htakes.unusable ?_, htakes.onChange (.flag true) rfl, hreevaluates _ rfl⟩
  rintro x ⟨v, hv, hx, hle⟩
  obtain rfl := Option.some.inj hv
  rw [hnumber] at hx
  obtain rfl := Option.some.inj (Except.ok.inj hx)
  exact absurd hle (by decide)

/-- **A tolerance beyond all doubles keeps the other settings out**, and the documents are not evaluated again. -/
theorem handle_tooLarge :
    let s := ((start (.ofFiles fun _ => "")).handleAll [.opened "a" "x = 1"]).1
    let step := s.handle (.configured (withTolerance (.whole (10 ^ 400))))
    step.result = .error .tooLarge ∧ step.server.settings.evaluateOnChange = false ∧
      "a" ∈ s.cache.names ∧ step.effects.published = [] := by
  intro s step
  have hlarge : ClientValue.ofWhole (10 ^ 400) = .error .tooLarge := by decide +kernel
  have hstep : step = ⟨.error .tooLarge, s, .none⟩ :=
    handle_of_sendsTooLarge (sent?_withTolerance _) ⟨10 ^ 400, rfl, hlarge⟩
  rw [hstep]
  exact ⟨rfl, congrArg Settings.evaluateOnChange (settings_handle_opened (start _) "a" "x = 1"),
    (isSound_start _).mem_names_opened "a" "x = 1", rfl⟩

end Server

end Editor

end MatrixCalc
