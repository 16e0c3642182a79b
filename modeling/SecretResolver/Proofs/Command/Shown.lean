/-
**Secrets that are shown.**

A user secret is shown by writing it in an encoding and printing what is written without the blanks at
its end.  JSON ends with a brace, and in YAML the text of the last field stands at the end.  Most texts
do not end with a blank when they are written; but a text that is written as it is may end with one
that is no space, and then that blank goes as well.  So what is shown decodes to the data of the
secret but for a last text of this kind.

Main definitions:

* `Yaml.EndsBlank` — a text that is written as it is and ends with a blank;
* `Yaml.writeUpTo` — what is written of a mapping before its last text;
* `Command.ShowsBack` — what is shown of a secret decodes to its data;
* `Command.Shown` — what is shown of a secret in JSON and in YAML.

Main results:

* `Yaml.trimEnd_writeMapping`, `Yaml.trimEnd_writeMapping_of_endsBlank` — a mapping without the blanks
  at its end;
* `Resolver.userSecret_ofFiles_eq_ok_iff` — which user secrets the command line knows;
* `Command.shown` — **what showing a secret prints**, and when it decodes to the data of the secret;
* `Command.not_showsBack_plainBlank` — a last text of which a blank is lost.
-/

import SecretResolver.Command.Run
import SecretResolver.Proofs.Payload.RoundTrip
import SecretResolver.Proofs.Reference.User

set_option relaxedAutoImplicit false
set_option autoImplicit false

namespace SecretResolver

/-! ### The end of what is written -/

namespace Yaml

variable {s name value : String} {before : List (String × String)}

/-- A text that is written as it is and ends with a blank. -/
def EndsBlank (s : String) : Prop :=
  formOf s = .plain ∧ ∃ c ∈ s.toList.getLast?, Text.isWhite c = true

/-- What is written of a mapping before the text of its last entry, which has a name and comes after
some others. -/
def writeUpTo (before : List (String × String)) (name : String) : List Char :=
  before.flatMap writeEntry ++
    if isSimpleKey name then writeScalar name ++ ": ".toList
    else "? ".toList ++ writeLines name ++ ": ".toList

theorem writeMapping_concat (before : List (String × String)) (name value : String) :
    writeMapping (before ++ [(name, value)]) = writeUpTo before name ++ writeLines value := by
  have hentries : writeMapping (before ++ [(name, value)]) =
      (before ++ [(name, value)]).flatMap writeEntry := by
    cases before <;> rfl
  rw [hentries, List.flatMap_append, List.flatMap_singleton, writeUpTo, List.append_assoc, writeEntry]
  split <;> simp only [List.append_assoc]

theorem formOf_ne_literal (h : '\n' ∉ s.toList) : formOf s ≠ .literal := by
  intro hform
  exact h (formOf_literal hform).lineFeed

/-- The texts that are written as they are. -/
theorem formOf_eq_plain (hline : '\n' ∉ s.toList) (htext : isAmbiguous s = false)
    (hplain : (Traits.of s.toList).plain = true) : formOf s = .plain := by
  have hfeed : s.contains '\n' = false := by simpa using hline
  simp [formOf, hfeed, htext, hplain]

/-- A text on one line ends with a line feed. -/
theorem writeLines_of_ne_literal (h : formOf s ≠ .literal) :
    writeLines s = writeScalar s ++ ['\n'] := by
  simp [writeLines, lineFeedAfter, h]

theorem writeScalar_of_plain (h : formOf s = .plain) : writeScalar s = s.toList := by
  rw [writeScalar, h, writeAs]

/-- But for plain texts that end with a blank, what is written of a text does not end with one. -/
theorem exists_last_writeScalar (hform : formOf s ≠ .literal) (h : ¬ EndsBlank s) :
    ∃ c, (writeScalar s).getLast? = some c ∧ Text.isWhite c = false := by
  cases hs : formOf s with
  | literal => exact absurd hs hform
  | plain =>
      obtain ⟨c, ds, hcons, -⟩ := (formOf_plain hs).2.begins
      have hne : s.toList ≠ [] := by
        rw [hcons]
        exact List.cons_ne_nil c ds
      refine ⟨s.toList.getLast hne, ?_, ?_⟩
      · rw [writeScalar_of_plain hs, List.getLast?_eq_some_getLast hne]
      · rw [← Bool.not_eq_true]
        intro hwhite
        exact h ⟨hs, _, List.getLast?_eq_some_getLast hne, hwhite⟩
  | single =>
      refine ⟨'\x27', ?_, by decide⟩
      rw [writeScalar, hs, writeAs, writeSingle, List.getLast?_concat]
  | double =>
      refine ⟨'"', ?_, by decide⟩
      rw [writeScalar, hs, writeAs, writeDouble, List.getLast?_concat]

/-- **A mapping without the blanks at its end**: all but its last line feed is there. -/
theorem trimEnd_writeMapping (hform : formOf value ≠ .literal) (h : ¬ EndsBlank value) :
    Text.trimEnd (writeMapping (before ++ [(name, value)])) ++ ['\n'] =
      writeMapping (before ++ [(name, value)]) := by
  obtain ⟨c, hlast, hwhite⟩ := exists_last_writeScalar hform h
  have hself : Text.trimEnd (writeScalar value) = writeScalar value := by
    refine Text.trimEnd_of_last ?_
    intro d hd
    rw [hlast] at hd
    rwa [← Option.some.inj hd]
  have hne : Text.trimEnd (writeScalar value) ≠ [] := by
    rw [hself]
    intro hnil
    rw [hnil] at hlast
    exact nomatch hlast
  rw [writeMapping_concat, writeLines_of_ne_literal hform, ← List.append_assoc,
    Text.trimEnd_append_lineFeed, Text.trimEnd_append hne, hself]

/-- A mapping whose last text is plain, without the blanks at its end. -/
theorem trimEnd_writeMapping_of_plain (h : formOf value = .plain) :
    Text.trimEnd (writeMapping (before ++ [(name, value)])) =
      Text.trimEnd (writeUpTo before name ++ value.toList) := by
  have hform : formOf value ≠ .literal := by
    rw [h]
    exact fun hno => nomatch hno
  rw [writeMapping_concat, writeLines_of_ne_literal hform, writeScalar_of_plain h,
    ← List.append_assoc, Text.trimEnd_append_lineFeed]

/-- When what is left of a plain text is plain as well, then the mapping with that text is left. -/
theorem trimEnd_writeMapping_of_rest (h : formOf value = .plain)
    (hrest : formOf (String.ofList (Text.trimEnd value.toList)) = .plain) :
    Text.trimEnd (writeMapping (before ++ [(name, value)])) ++ ['\n'] =
      writeMapping (before ++ [(name, String.ofList (Text.trimEnd value.toList))]) := by
  have hne : Text.trimEnd value.toList ≠ [] := by
    obtain ⟨c, ds, hcons, -⟩ := (formOf_plain hrest).2.begins
    rw [String.toList_ofList] at hcons
    rw [hcons]
    exact List.cons_ne_nil c ds
  have hform : formOf (String.ofList (Text.trimEnd value.toList)) ≠ .literal := by
    rw [hrest]
    exact fun hno => nomatch hno
  rw [trimEnd_writeMapping_of_plain h, Text.trimEnd_append hne, writeMapping_concat,
    writeLines_of_ne_literal hform, writeScalar_of_plain hrest, String.toList_ofList,
    List.append_assoc]

end Yaml

/-! ### The user secrets of the command line -/

namespace Resolver

variable {s : Resolver} {r : UserRef} {settings : Settings} {root : String} {read : ReadFile}
variable {secret : UserSecret}

/-- With a cache that holds nothing, a reference is computed, and what comes of that is handed out. -/
theorem userSecret_of_empty {e : Engine} {limits : CacheLimits} (hs : s.secrets = .empty limits)
    (he : s.engineOf r.engine = .ok e) :
    ∃ s', (userSecret r s).1 = (computeChecked e r s').1.result := by
  obtain ⟨secrets, hrequest⟩ : ∃ secrets,
      s.secrets.request s.now r.identity = (.started 0 false, secrets) := by
    rw [hs]
    exact ⟨_, rfl⟩
  refine ⟨(noteRequest (Cache.Request.started (β := UserSecret) 0 false)
    { s with secrets := secrets }).2, ?_⟩
  simp only [userSecret, startSecret, Action.bind_apply, Action.get_apply, Action.modify_apply, he,
    hrequest]
  simp [await, finishSecret, Shared.collect, Shared.computation?, Shared.begin_, Entries.find?,
    passTo]

/-- **The user secrets of the command line** are the references that hold them. -/
theorem userSecret_ofFiles_eq_ok_iff :
    (userSecret r (ofFiles settings root read)).1 = .ok secret ↔
      r.engine = Embedded.identifier ∧ (r.get? Embedded.valueParameter).isSome = true ∧
        secret = Embedded.secret r := by
  have hsecrets : (ofFiles settings root read).secrets = .empty settings.userSecrets.limits := rfl
  have hengines : (ofFiles settings root read).engines.entries =
      [(fileEngine, .storage fileEngine (.empty settings.cache.limits)),
        (Embedded.identifier, .embedded)] := rfl
  have hengine : (ofFiles settings root read).engineOf r.engine =
      if fileEngine = r.engine then .ok (.storage fileEngine (.empty settings.cache.limits))
      else if Embedded.identifier = r.engine then .ok .embedded
      else .error (.noSuchEngine r.engine) := by
    rw [engineOf, Table.get?, hengines]
    by_cases hfile : fileEngine = r.engine
    · simp [Entries.find?, hfile]
    · by_cases hnoop : Embedded.identifier = r.engine <;> simp [Entries.find?, hfile, hnoop]
  by_cases hfile : fileEngine = r.engine
  · rw [if_pos hfile] at hengine
    obtain ⟨s', hresult⟩ := userSecret_of_empty hsecrets hengine
    rw [hresult, ← hfile]
    simp [computeChecked, Engine.validateUser, Engine.unsupported, fileEngine, Embedded.identifier]
  · rw [if_neg hfile] at hengine
    by_cases hnoop : Embedded.identifier = r.engine
    · rw [if_pos hnoop] at hengine
      obtain ⟨s', hresult⟩ := userSecret_of_empty hsecrets hengine
      rw [hresult]
      by_cases hvalue : (r.get? Embedded.valueParameter).isSome = true
      · simp [computeChecked, Engine.validateUser, hvalue, computeSecret, hnoop, eq_comm]
      · simp [computeChecked, Engine.validateUser, hvalue]
    · rw [if_neg hnoop] at hengine
      simp [userSecret, startSecret, hengine, await, Ne.symm hnoop]

end Resolver

/-- The texts of a secret that a reference holds: there is at least one, and each is on one line. -/
theorem Embedded.texts_secret {text : String} {r : UserRef} (hr : UserRef.parse text = .ok r)
    (hvalue : (r.get? Embedded.valueParameter).isSome = true) :
    (r.parameters.erase fieldParameter).entries ≠ [] ∧
      ∀ e ∈ (r.parameters.erase fieldParameter).entries, '\n' ∉ e.2.toList := by
  refine ⟨?_, ?_⟩
  · obtain ⟨value, hvalue⟩ := Option.isSome_iff_exists.1 hvalue
    have hmem : (Embedded.valueParameter, value) ∈ r.parameters.entries :=
      Table.mem_entries_iff.2 hvalue
    have hkept : (Embedded.valueParameter, value) ∈ (r.parameters.erase fieldParameter).entries :=
      List.mem_filter.2 ⟨hmem, by simp [Embedded.valueParameter, fieldParameter]⟩
    exact List.ne_nil_of_mem hkept
  · intro e he
    exact (UserRef.parse_eq_ok_iff.1 hr).2.oneLine e (List.mem_filter.1 he).1

/-! ### What is shown -/

namespace Command

variable {i : Invocation} {read : ReadFile} {env : Environment} {encoding name value : String}
variable {secret : UserSecret} {values : Table String} {before : List (String × String)}

/-- An invocation shows the secret of a reference, which the resolver of the command line gives for
it. -/
def Presents (i : Invocation) (read : ReadFile) (env : Environment) (encoding : String)
    (secret : UserSecret) : Prop :=
  ∃ settings text r, i.settings read env = .ok settings ∧ i.command = .present text encoding ∧
    UserRef.parse text = .ok r ∧
    (Resolver.userSecret r (.ofFiles settings i.root read)).1 = .ok secret

/-- What an invocation prints of a secret decodes to the data of that secret. -/
def ShowsBack (i : Invocation) (read : ReadFile) (env : Environment) (encoding : String)
    (secret : UserSecret) : Prop :=
  ∃ out q, i.run read env = ⟨0, out, ""⟩ ∧
    Payload.decode (Utf8.ofString out) secret.description.kind encoding = .ok q ∧
    q.sameAs secret.payload = true

/-- Showing a secret prints what is written of it without the blanks at its end. -/
theorem Presents.run_eq (h : Presents i read env encoding secret) {cs : List Char}
    (hcs : secret.payload.encode encoding = .ok (Utf8.encode cs)) :
    i.run read env = ⟨0, printed (String.ofList (Text.trimEnd cs)), ""⟩ := by
  obtain ⟨settings, text, r, hsettings, hcommand, hr, hsecret⟩ := h
  have href : Resolver.userRef text = .ok r := by
    rw [Resolver.userRef, hr]
    rfl
  have htext : textOfBytes (Utf8.encode cs) = .ok (String.ofList cs) := by
    have hread := Utf8.text?_ofString (String.ofList cs)
    rw [Utf8.ofString, String.toList_ofList] at hread
    simp [textOfBytes, hread]
  have hshown : (shownSecret text encoding (.ofFiles settings i.root read)).1 =
      .ok (String.ofList cs) := by
    simp [shownSecret, href, hsecret, hcs, htext]
  simp [Invocation.run, hsettings, hcommand, run, hshown, Except.map, plainly, Except.mapError,
    withoutEnd, Outcome.ofResult]

/-- A secret that is shown has texts with names, at least one, and each is on one line. -/
theorem Presents.exists_values (h : Presents i read env encoding secret) :
    ∃ values, secret = ⟨⟨PayloadKind.named.name, "", []⟩, .named values⟩ ∧ values.entries ≠ [] ∧
      ∀ e ∈ values.entries, '\n' ∉ e.2.toList := by
  obtain ⟨settings, text, r, -, -, hr, hsecret⟩ := h
  obtain ⟨-, hvalue, rfl⟩ := Resolver.userSecret_ofFiles_eq_ok_iff.1 hsecret
  exact ⟨_, rfl, Embedded.texts_secret hr hvalue⟩

/-- The texts of a secret with the last one apart. -/
def Ends (secret : UserSecret) (before : List (String × String)) (name value : String) : Prop :=
  ∃ values, secret.payload = .named values ∧ values.entries = before ++ [(name, value)]

/-- A secret that is shown, by its last text. -/
theorem Presents.exists_of_ends (h : Presents i read env encoding secret)
    (hends : Ends secret before name value) :
    ∃ values, secret = ⟨⟨PayloadKind.named.name, "", []⟩, .named values⟩ ∧
      values.entries = before ++ [(name, value)] := by
  obtain ⟨values, rfl, -⟩ := h.exists_values
  obtain ⟨values', hsecret, hvalues⟩ := hends
  obtain rfl : values = values' := by simpa using hsecret
  exact ⟨values, rfl, hvalues⟩

/-- The bytes of a text on a line. -/
theorem ofString_printed (cs : List Char) :
    Utf8.ofString (printed (String.ofList cs)) = Utf8.encode (cs ++ ['\n']) := by
  rw [Utf8.ofString, printed, String.toList_append, String.toList_ofList]
  rfl

/-- **What is shown in JSON decodes to the data of the secret**: it ends with a brace, so all of it is
printed. -/
theorem Presents.showsBack_json (h : Presents i read env encoding secret)
    (hencoding : Text.sameIgnoringCase Encoding.json.name encoding = true) :
    ShowsBack i read env encoding secret := by
  obtain ⟨values, rfl, -⟩ := h.exists_values
  have hrun := h.run_eq (Payload.encode_of_name hencoding (.named values))
  have hall : Text.trimEnd (Payload.jsonObject values.entries) =
      Payload.jsonObject values.entries := by
    refine Text.trimEnd_of_last ?_
    intro c hc
    rw [Payload.jsonObject, Json.writeMembers, List.getLast?_concat] at hc
    obtain rfl := Option.some.inj hc
    decide
  have hfeed : Json.skipBlanks (Utf8.encode ['\n']) = [] := by decide
  obtain ⟨q, hq, hsame⟩ := Payload.decodeAs_jsonObject values hfeed
  refine ⟨_, q, hrun, ?_, hsame⟩
  rw [ofString_printed, hall, Utf8.encode_append]
  exact Payload.decode_of_name hencoding hq

/-- Showing a secret in YAML prints its mapping without the blanks at its end. -/
theorem Presents.run_yaml
    (h : Presents i read env encoding ⟨⟨PayloadKind.named.name, "", []⟩, .named values⟩)
    (hencoding : Text.sameIgnoringCase Encoding.yaml.name encoding = true) :
    i.run read env =
      ⟨0, printed (String.ofList (Text.trimEnd (Yaml.writeMapping values.entries))), ""⟩ :=
  h.run_eq (Payload.encode_of_name hencoding (.named values))

/-- What is printed is a mapping, and decodes to its texts. -/
theorem decode_of_writeMapping {shown : Table String} {cs : List Char}
    (hcs : cs ++ ['\n'] = Yaml.writeMapping shown.entries)
    (hencoding : Text.sameIgnoringCase Encoding.yaml.name encoding = true) :
    Payload.decode (Utf8.ofString (printed (String.ofList cs))) PayloadKind.named.name encoding =
      .ok (.named shown) := by
  rw [ofString_printed, hcs]
  exact Payload.decode_of_name hencoding (Payload.decodeAs_yaml (.named shown))

/-- **What is shown in YAML decodes to the data of the secret**, unless its last text is written as it
is and ends with a blank. -/
theorem Presents.showsBack_yaml
    (h : Presents i read env encoding ⟨⟨PayloadKind.named.name, "", []⟩, .named values⟩)
    (hencoding : Text.sameIgnoringCase Encoding.yaml.name encoding = true)
    (hvalues : values.entries = before ++ [(name, value)]) (hends : ¬ Yaml.EndsBlank value) :
    ShowsBack i read env encoding ⟨⟨PayloadKind.named.name, "", []⟩, .named values⟩ := by
  obtain ⟨values', hsecret, -, hlines⟩ := h.exists_values
  obtain rfl : values = values' := by simpa using hsecret
  have hline : '\n' ∉ value.toList := hlines (name, value) (by simp [hvalues])
  have hall : Text.trimEnd (Yaml.writeMapping values.entries) ++ ['\n'] =
      Yaml.writeMapping values.entries := by
    rw [hvalues]
    exact Yaml.trimEnd_writeMapping (Yaml.formOf_ne_literal hline) hends
  exact ⟨_, .named values, h.run_yaml hencoding, decode_of_writeMapping hall hencoding,
    Payload.sameAs_refl _⟩

/-- When what is left of a last text is plain, what is shown decodes to the texts with that one, and
not to the data of the secret. -/
theorem Presents.shortened (h : Presents i read env encoding secret)
    (hencoding : Text.sameIgnoringCase Encoding.yaml.name encoding = true)
    (hends : Ends secret before name value) (hblank : Yaml.EndsBlank value)
    (hrest : Yaml.formOf (withoutEnd value) = .plain) :
    ∃ out shown, i.run read env = ⟨0, out, ""⟩ ∧
      Payload.decode (Utf8.ofString out) secret.description.kind encoding = .ok (.named shown) ∧
      shown.entries = before ++ [(name, withoutEnd value)] ∧
      (Payload.named shown).sameAs secret.payload = false := by
  obtain ⟨values, rfl, hvalues⟩ := h.exists_of_ends hends
  have hdistinct : (Entries.names (before ++ [(name, withoutEnd value)])).Nodup := by
    have hnames := values.distinct
    rw [hvalues] at hnames
    simpa [Entries.names] using hnames
  have hall : Text.trimEnd (Yaml.writeMapping values.entries) ++ ['\n'] =
      Yaml.writeMapping (before ++ [(name, withoutEnd value)]) := by
    rw [hvalues]
    exact Yaml.trimEnd_writeMapping_of_rest hblank.1 hrest
  refine ⟨_, ⟨_, hdistinct⟩, h.run_yaml hencoding, decode_of_writeMapping hall hencoding, rfl, ?_⟩
  -- the last text ends with a blank, and what is left of it does not
  have hne : withoutEnd value ≠ value := by
    intro heq
    obtain ⟨c, hc, hwhite⟩ := hblank.2
    have hlast := Text.last_trimEnd value.toList
    rw [← String.toList_ofList (l := Text.trimEnd value.toList), ← withoutEnd, heq] at hlast
    exact absurd hwhite (by simp [hlast c hc])
  have hget : values.get? name = some value :=
    Table.mem_entries_iff.1 (by simp [hvalues])
  rw [← Bool.not_eq_true]
  intro hsame
  simp only [Payload.sameAs, Table.sameAs, Bool.and_eq_true, List.all_eq_true,
    decide_eq_true_eq] at hsame
  have hkept := hsame.2 (name, withoutEnd value) (by simp)
  rw [hget] at hkept
  exact hne (Option.some.inj hkept).symm

/-- What decodes to other data is not the data of the secret. -/
theorem not_showsBack {out : String} {q : Payload} (hrun : i.run read env = ⟨0, out, ""⟩)
    (hq : Payload.decode (Utf8.ofString out) secret.description.kind encoding = .ok q)
    (hother : q.sameAs secret.payload = false) : ¬ ShowsBack i read env encoding secret := by
  rintro ⟨out', q', hrun', hq', hsame⟩
  obtain rfl : out = out' := congrArg Outcome.output (hrun.symm.trans hrun')
  obtain rfl : q = q' := Except.ok.inj (hq.symm.trans hq')
  exact absurd hsame (by simp [hother])

/-- What is shown of a secret under a name of JSON and under a name of YAML. -/
structure Shown (i : Invocation) (read : ReadFile) (env : Environment) (encoding : String)
    (secret : UserSecret) : Prop where
  /-- There is a last text. -/
  ends : ∃ before name value, Ends secret before name value
  /-- JSON decodes to the data of the secret. -/
  json : Text.sameIgnoringCase Encoding.json.name encoding = true →
    ShowsBack i read env encoding secret
  /-- So does YAML, unless the last text is written as it is and ends with a blank. -/
  yaml : Text.sameIgnoringCase Encoding.yaml.name encoding = true →
    ∀ before name value, Ends secret before name value → ¬ Yaml.EndsBlank value →
      ShowsBack i read env encoding secret
  /-- Of such a last text the blanks at its end are not printed. -/
  cut : Text.sameIgnoringCase Encoding.yaml.name encoding = true →
    ∀ before name value, Ends secret before name value → Yaml.EndsBlank value →
      i.run read env =
        ⟨0, printed (withoutEnd (String.ofList (Yaml.writeUpTo before name) ++ value)), ""⟩
  /-- When what is left of it is plain, that is the text that comes back. -/
  lost : Text.sameIgnoringCase Encoding.yaml.name encoding = true →
    ∀ before name value, Ends secret before name value → Yaml.EndsBlank value →
      Yaml.formOf (withoutEnd value) = .plain →
        ¬ ShowsBack i read env encoding secret ∧ ∃ out shown, i.run read env = ⟨0, out, ""⟩ ∧
          Payload.decode (Utf8.ofString out) secret.description.kind encoding =
            .ok (.named shown) ∧ shown.entries = before ++ [(name, withoutEnd value)]

/-- **What showing a secret prints**, for every reference that the command line resolves. -/
theorem shown (h : Presents i read env encoding secret) : Shown i read env encoding secret where
  ends := by
    obtain ⟨values, rfl, hne, -⟩ := h.exists_values
    exact ⟨values.entries.dropLast, (values.entries.getLast hne).1,
      (values.entries.getLast hne).2, values, rfl, (List.dropLast_append_getLast hne).symm⟩
  json hencoding := h.showsBack_json hencoding
  yaml hencoding before name value hends hblank := by
    obtain ⟨values, rfl, hvalues⟩ := h.exists_of_ends hends
    exact h.showsBack_yaml hencoding hvalues hblank
  cut hencoding before name value hends hblank := by
    obtain ⟨values, rfl, hvalues⟩ := h.exists_of_ends hends
    rw [h.run_yaml hencoding, hvalues, Yaml.trimEnd_writeMapping_of_plain hblank.1, withoutEnd,
      String.toList_append, String.toList_ofList]
  lost hencoding before name value hends hblank hrest := by
    obtain ⟨out, shown, hrun, hdecode, hentries, hother⟩ :=
      h.shortened hencoding hends hblank hrest
    exact ⟨not_showsBack hrun hdecode hother, out, shown, hrun, hdecode, hentries⟩

/-! ### Blanks at the end of a value -/

/-- An invocation that shows the secret of a text in YAML, without a file of settings. -/
def showing (text : String) : Invocation := ⟨.present text "YAML", none, ".", false⟩

/-- No file is there. -/
def noFiles : ReadFile := fun _ => .error .notFound

/-- A reference that holds its secret is shown. -/
theorem presents_of_parse {text : String} {r : UserRef} (hr : UserRef.parse text = .ok r)
    (hengine : r.engine = Embedded.identifier)
    (hvalue : (r.get? Embedded.valueParameter).isSome = true) :
    Presents (showing text) noFiles [] "YAML" (Embedded.secret r) := by
  -- the settings do not depend on what is shown
  have hsame : (showing text).settings noFiles [] = (showing "").settings noFiles [] := by
    simp only [Invocation.settings, showing]
    generalize Settings.load noFiles none [] = loaded
    rfl
  have hsettings : ((showing "").settings noFiles []).toBool = true := by decide +kernel
  rw [← hsame] at hsettings
  cases h : (showing text).settings noFiles [] with
  | error c =>
      rw [h] at hsettings
      exact absurd hsettings Bool.false_ne_true
  | ok settings =>
      exact ⟨settings, text, r, h, rfl, hr,
        Resolver.userSecret_ofFiles_eq_ok_iff.2 ⟨hengine, hvalue, rfl⟩⟩

/-- A reference to a value that stands in quotes when it is written, and ends with a no-break space. -/
def quotedBlank : UserRef := ⟨"noop", ⟨[("a", "x"), ("v", ": \u00a0"), ("k", "a")], by decide⟩⟩

/-- The blank in quotes is shown. -/
theorem shown_quotedBlank :
    Presents (showing "secret://noop?a=x&v=: \u00a0&k=a") noFiles [] "YAML"
        (Embedded.secret quotedBlank) ∧
      Shown (showing "secret://noop?a=x&v=: \u00a0&k=a") noFiles [] "YAML"
        (Embedded.secret quotedBlank) := by
  have h : Presents (showing "secret://noop?a=x&v=: \u00a0&k=a") noFiles [] "YAML"
      (Embedded.secret quotedBlank) := presents_of_parse rfl rfl rfl
  exact ⟨h, shown h⟩

/-- A reference to a value that is written as it is, and ends with a no-break space. -/
def plainBlank : UserRef := ⟨"noop", ⟨[("v", "a\u00a0")], by decide⟩⟩

/-- The blank that is written as it is is lost: only `v: a` is printed. -/
theorem not_showsBack_plainBlank :
    Presents (showing "secret://noop?v=a\u00a0") noFiles [] "YAML" (Embedded.secret plainBlank) ∧
      (showing "secret://noop?v=a\u00a0").run noFiles [] = ⟨0, "v: a\n", ""⟩ ∧
      ¬ ShowsBack (showing "secret://noop?v=a\u00a0") noFiles [] "YAML"
        (Embedded.secret plainBlank) := by
  have h : Presents (showing "secret://noop?v=a\u00a0") noFiles [] "YAML"
      (Embedded.secret plainBlank) := presents_of_parse rfl rfl rfl
  have hencoding : Text.sameIgnoringCase Encoding.yaml.name "YAML" = true := by decide +kernel
  have hends : Ends (Embedded.secret plainBlank) [] "v" "a\u00a0" := ⟨_, rfl, rfl⟩
  have hplain : Yaml.formOf "a\u00a0" = .plain :=
    Yaml.formOf_eq_plain (by decide) (by decide +kernel) (by decide +kernel)
  have hblank : Yaml.EndsBlank "a\u00a0" := ⟨hplain, '\u00a0', rfl, by decide⟩
  have hleft : withoutEnd "a\u00a0" = "a" := by decide +kernel
  have hrest : Yaml.formOf (withoutEnd "a\u00a0") = .plain := by
    rw [hleft]
    exact Yaml.formOf_eq_plain (by decide) (by decide +kernel) (by decide +kernel)
  have hrun : (showing "secret://noop?v=a\u00a0").run noFiles [] = ⟨0, "v: a\n", ""⟩ := by
    have hentries : (plainBlank.parameters.erase fieldParameter).entries =
        [] ++ [("v", "a\u00a0")] := rfl
    have hkey : Yaml.writeUpTo [] "v" = "v: ".toList := by
      rw [Yaml.writeUpTo, if_pos (by decide +kernel), Yaml.writeScalar_of_plain
        (Yaml.formOf_eq_plain (by decide) (by decide +kernel) (by decide +kernel))]
      rfl
    refine (h.run_yaml hencoding).trans ?_
    rw [hentries, Yaml.trimEnd_writeMapping_of_plain hplain, hkey]
    decide +kernel
  obtain ⟨out, shown, hout, hdecode, -, hother⟩ := h.shortened hencoding hends hblank hrest
  exact ⟨h, hrun, not_showsBack hout hdecode hother⟩

end Command

end SecretResolver
