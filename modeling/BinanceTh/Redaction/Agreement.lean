import BinanceTh.Lib.Relational
import BinanceTh.Transport.Exchanges

/-!
# Data that differ in secrets only

Two JSON values, parameter lists or header maps agree if they are the same but for what is stored
under sensitive keys. Redaction maps data that agree to one record. What the transport reads of a
reply is under other keys, so that replies that agree have results that agree
(`resultRel_result`).
-/

namespace BinanceTh

open Interaction

/-! ## JSON -/

mutual

/-- The same value but for what is under sensitive keys, at any depth. -/
inductive Json.Agrees : Json → Json → Prop
  | same (j : Json) : Json.Agrees j j
  | arr {items items' : List Json} : ItemsAgree items items' → Json.Agrees (.arr items) (.arr items')
  | obj {fields fields' : Dict Json} : FieldsAgree fields fields' →
      Json.Agrees (.obj fields) (.obj fields')

inductive ItemsAgree : List Json → List Json → Prop
  | nil : ItemsAgree [] []
  | cons {item item' : Json} {items items' : List Json} : item.Agrees item' →
      ItemsAgree items items' → ItemsAgree (item :: items) (item' :: items')

inductive FieldsAgree : Dict Json → Dict Json → Prop
  | nil : FieldsAgree [] []
  | secret {key : String} {value value' : Json} {fields fields' : Dict Json} :
      isSensitive key = true → FieldsAgree fields fields' →
      FieldsAgree ((key, value) :: fields) ((key, value') :: fields')
  | plain {key : String} {value value' : Json} {fields fields' : Dict Json} :
      value.Agrees value' → FieldsAgree fields fields' →
      FieldsAgree ((key, value) :: fields) ((key, value') :: fields')

end

mutual

theorem Json.Agrees.redactValue_eq : ∀ {j j' : Json}, j.Agrees j' → redactValue j = redactValue j'
  | _, _, .same _ => rfl
  | _, _, .arr h => by rw [redactValue, redactValue, h.redactItems_eq]
  | _, _, .obj h => by rw [redactValue, redactValue, h.redactFields_eq]

theorem ItemsAgree.redactItems_eq : ∀ {items items' : List Json}, ItemsAgree items items' →
    redactItems items = redactItems items'
  | _, _, .nil => rfl
  | _, _, .cons h hs => by rw [redactItems, redactItems, h.redactValue_eq, hs.redactItems_eq]

theorem FieldsAgree.redactFields_eq : ∀ {fields fields' : Dict Json}, FieldsAgree fields fields' →
    redactFields fields = redactFields fields'
  | _, _, .nil => rfl
  | _, _, .secret hkey hs => by
    rw [redactFields, redactFields, if_pos hkey, if_pos hkey, hs.redactFields_eq]
  | _, _, .plain h hs => by
    rw [redactFields, redactFields, h.redactValue_eq, hs.redactFields_eq]

end

/-- What is under a key that is not sensitive agrees. -/
theorem FieldsAgree.get? {fields fields' : Dict Json} (h : FieldsAgree fields fields') {key : String}
    (hkey : isSensitive key = false) :
    Option.Rel Json.Agrees (Dict.get? fields key) (Dict.get? fields' key) := by
  induction fields generalizing fields' with
  | nil =>
    cases h
    exact .none
  | cons kv fields ih =>
    cases h with
    | secret hsecret hs =>
      rw [Dict.get?_cons, Dict.get?_cons]
      split
      · next heq =>
        rw [heq, hsecret] at hkey
        cases hkey
      · exact ih hs
    | plain hv hs =>
      rw [Dict.get?_cons, Dict.get?_cons]
      split
      · exact .some hv
      · exact ih hs

theorem FieldsAgree.refl (fields : Dict Json) : FieldsAgree fields fields := by
  induction fields with
  | nil => exact .nil
  | cons kv fields ih => exact .plain (.same kv.2) ih

/-- Objects agree by their fields. -/
theorem Json.Agrees.fields {fields : Dict Json} {j : Json} (h : (Json.obj fields).Agrees j) :
    ∃ fields', j = .obj fields' ∧ FieldsAgree fields fields' := by
  cases h with
  | same => exact ⟨fields, rfl, .refl fields⟩
  | obj h => exact ⟨_, rfl, h⟩

theorem Json.Agrees.asInt?_eq {j j' : Json} (h : j.Agrees j') : j.asInt? = j'.asInt? := by
  cases h <;> rfl

theorem Json.Agrees.asStr?_eq {j j' : Json} (h : j.Agrees j') : j.asStr? = j'.asStr? := by
  cases h <;> rfl

theorem FieldsAgree.bind_eq {α : Type} {fields fields' : Dict Json} (h : FieldsAgree fields fields')
    {key : String} (hkey : isSensitive key = false) {f : Json → Option α}
    (hf : ∀ j j', j.Agrees j' → f j = f j') :
    (Dict.get? fields key).bind f = (Dict.get? fields' key).bind f := by
  have hget := h.get? hkey
  revert hget
  cases Dict.get? fields key <;> cases Dict.get? fields' key <;> intro hget <;> cases hget
  · rfl
  · next hvalue => exact hf _ _ hvalue

/-! ## Parameters and headers -/

/-- The same entries in the same order, but for the values of sensitive keys. -/
def DictAgree {α : Type} (d d' : Dict α) : Prop :=
  List.Forall₂ (fun kv kv' => kv.1 = kv'.1 ∧ (isSensitive kv.1 = false → kv.2 = kv'.2)) d d'

namespace DictAgree

variable {α β : Type} {d d' : Dict α}

theorem refl (d : Dict α) : DictAgree d d :=
  List.forall₂_same.2 fun _ _ => ⟨rfl, fun _ => rfl⟩

theorem map (h : DictAgree d d') (f : α → β) :
    DictAgree (List.map (fun kv => (kv.1, f kv.2)) d) (List.map (fun kv => (kv.1, f kv.2)) d') := by
  induction h with
  | nil => exact .nil
  | cons hkv _ ih =>
    exact .cons ⟨hkv.1, fun hplain => congrArg f (hkv.2 hplain)⟩ ih

/-- Masking the values of sensitive keys leaves no difference. -/
theorem redact_eq (h : DictAgree d d') (mask : α) :
    List.map (fun kv => (kv.1, if isSensitive kv.1 then mask else kv.2)) d =
      List.map (fun kv => (kv.1, if isSensitive kv.1 then mask else kv.2)) d' := by
  induction h with
  | nil => rfl
  | cons hkv _ ih =>
    rw [List.map_cons, List.map_cons, ih, ← hkv.1]
    congr 2
    split
    · rfl
    · next hplain => exact hkv.2 (Bool.eq_false_of_not_eq_true hplain)

theorem contains_eq (h : DictAgree d d') (key : String) :
    Dict.contains d key = Dict.contains d' key := by
  unfold Dict.contains
  induction h with
  | nil => rfl
  | @cons kv kv' d d' hkv _ ih =>
    obtain ⟨k, v⟩ := kv
    obtain ⟨k', v'⟩ := kv'
    obtain rfl : k = k' := hkv.1
    rw [Dict.get?_cons, Dict.get?_cons]
    split
    · rfl
    · exact ih

theorem set (h : DictAgree d d') (key : String) {v v' : α}
    (hv : isSensitive key = false → v = v') : DictAgree (Dict.set d key v) (Dict.set d' key v') := by
  have hreplace : DictAgree (Dict.replace d key v) (Dict.replace d' key v') := by
    induction h with
    | nil => exact .nil
    | @cons kv kv' d d' hkv _ ih =>
      refine .cons ?_ ih
      dsimp only
      rw [← hkv.1]
      split
      · exact ⟨rfl, hv⟩
      · exact hkv
  unfold Dict.set
  rw [← h.contains_eq key]
  split
  · exact hreplace
  · exact List.rel_append h (.cons ⟨rfl, hv⟩ .nil)

/-- A header that holds no credential is the same. -/
theorem header_eq {headers headers' : Headers} (h : DictAgree headers headers') {name : String}
    (hname : isSensitive name = false) : header headers name = header headers' name := by
  unfold header
  induction h with
  | nil => rfl
  | @cons kv kv' d d' hkv _ ih =>
    rw [List.find?_cons, List.find?_cons, ← hkv.1]
    by_cases heq : lower kv.1 = lower name
    · have hplain : isSensitive kv.1 = false := by
        rw [← hname]
        unfold isSensitive
        rw [heq]
      simp [heq, hkv.2 hplain]
    · simpa [heq] using ih

end DictAgree

theorem redactParams_eq {params params' : Params} (h : DictAgree params params') :
    redactParams params = redactParams params' := h.redact_eq (.str redacted)

theorem redactHeaders_eq {headers headers' : Dict String} (h : DictAgree headers headers') :
    redactHeaders headers = redactHeaders headers' := h.redact_eq redacted

/-- The digest of the parameters is stored under a sensitive key. -/
theorem DictAgree.signedParams {params params' : Params} (h : DictAgree params params')
    (signer signer' : Signer) (timestamp recvWindow : ℤ) :
    DictAgree (signer.signedParams params timestamp recvWindow)
      (signer'.signedParams params' timestamp recvWindow) := by
  have hordered : DictAgree (Signer.ordered params recvWindow)
      (Signer.ordered params' recvWindow) := by
    have hmap := h.map ParamValue.toStr
    unfold Signer.ordered
    simp only
    rw [← hmap.contains_eq]
    split
    · exact hmap
    · exact hmap.set _ fun _ => rfl
  unfold Signer.signedParams
  refine (hordered.set "timestamp" fun _ => rfl).set "signature" fun hplain => ?_
  have hsecret : isSensitive "signature" = true := by decide +kernel
  rw [hsecret] at hplain
  cases hplain

/-! ## Replies -/

/-- What the transport does with an exception is the same. -/
structure Exc.Alike (e e' : Exc) : Prop where
  retryAfter : e.retryAfter? = e'.retryAfter?
  isTimestampError : e.isTimestampError = e'.isTimestampError
  isRetryable : ∀ mutating, isRetryable mutating e = isRetryable mutating e'

theorem Exc.Alike.refl (e : Exc) : e.Alike e := ⟨rfl, rfl, fun _ => rfl⟩

theorem Exc.Alike.api {a a' : APIError} (hcls : a.cls = a'.cls) (hcode : a.code = a'.code)
    (hafter : a.retryAfter = a'.retryAfter) : (Exc.api a).Alike (.api a') where
  retryAfter := hafter
  isTimestampError := by
    simp only [Exc.isTimestampError, hcls, hcode]
  isRetryable mutating := by
    unfold BinanceTh.isRetryable
    simp only [hcls]

/-- Two replies with the same status whose headers and decoded bodies agree. -/
structure Response.Agrees (parseJson : Bool) (r r' : Response) : Prop where
  status : r.status = r'.status
  headers : DictAgree r.headers r'.headers
  body : ResultRel Eq Json.Agrees (decode r parseJson) (decode r' parseJson)

/-- Both are replies, both time-outs or both other network errors. -/
inductive NetResult.Agrees (parseJson : Bool) : NetResult → NetResult → Prop
  | response {r r' : Response} : r.Agrees parseJson r' →
      NetResult.Agrees parseJson (.response r) (.response r')
  | timeout (message message' : String) :
      NetResult.Agrees parseJson (.timeout message) (.timeout message')
  | httpError (message message' : String) :
      NetResult.Agrees parseJson (.httpError message) (.httpError message')

theorem extract_eq {body body' : Json} (h : body.Agrees body') : extract body = extract body' := by
  have hcode : isSensitive "code" = false := by decide +kernel
  have hmsg : isSensitive "msg" = false := by decide +kernel
  cases h with
  | same => rfl
  | arr _ => rfl
  | obj h =>
    simp only [extract, h.bind_eq hcode fun _ _ hv => hv.asInt?_eq,
      h.bind_eq hmsg fun _ _ hv => hv.asStr?_eq]

theorem alike_httpError {status : ℕ} {body body' : Json} {headers headers' : Headers}
    (hbody : body.Agrees body') (hheaders : DictAgree headers headers') :
    (Exc.api (httpError status body headers)).Alike (.api (httpError status body' headers')) := by
  have hafter : isSensitive retryAfterHeader = false := by decide +kernel
  unfold httpError
  rw [extract_eq hbody]
  exact .api rfl rfl (by simp only [build, hheaders.header_eq hafter])

theorem resultRel_unwrap {strOf strOf' : Json → String} {body body' : Json} {status : ℕ}
    {requestId requestId' : Option String} (h : body.Agrees body') :
    ResultRel Exc.Alike Json.Agrees (unwrap strOf body status requestId)
      (unwrap strOf' body' status requestId') := by
  have hcode : isSensitive "code" = false := by decide +kernel
  have hdata : isSensitive "data" = false := by decide +kernel
  cases body with
  | obj fields =>
    obtain ⟨fields', rfl, hfields⟩ := h.fields
    unfold unwrap
    simp only
    rw [← hfields.bind_eq hcode fun _ _ hv => hv.asInt?_eq]
    split
    · exact .error ⟨rfl, rfl, fun mutating => by cases mutating <;> rfl⟩
    · next code _ =>
      split
      · exact .error (.api rfl rfl rfl)
      · refine .ok ?_
        have hget := hfields.get? hdata
        revert hget
        cases Dict.get? fields "data" <;> cases Dict.get? fields' "data" <;> intro hget <;>
          cases hget
        · exact .same _
        · next hvalue => exact hvalue
  | _ =>
    cases h <;> exact .error ⟨rfl, rfl, fun mutating => by cases mutating <;> rfl⟩

/-- Replies that agree have results that agree. -/
theorem resultRel_result {T T' : Transport} {call call' : Call} {r r' : Response}
    (hparse : call'.parseJson = call.parseJson) (henvelope : call'.envelope = call.envelope)
    (h : r.Agrees call.parseJson r') :
    ResultRel Exc.Alike Json.Agrees (T.result call r) (T'.result call' r') := by
  unfold Transport.result
  rw [hparse, henvelope, ← h.status]
  refine h.body.bind (fun e e' he => he ▸ .refl e) fun body body' hbody => ?_
  unfold raiseForHttpStatus
  split
  · show ResultRel _ _ (if call.envelope then _ else _) (if call.envelope then _ else _)
    split
    · exact resultRel_unwrap hbody
    · exact .ok hbody
  · exact .error (alike_httpError hbody h.headers)

theorem resultRel_outcome {T T' : Transport} {call call' : Call} {net net' : NetResult}
    (hparse : call'.parseJson = call.parseJson) (henvelope : call'.envelope = call.envelope)
    (h : net.Agrees call.parseJson net') :
    ResultRel Exc.Alike Json.Agrees (T.outcome call net) (T'.outcome call' net') := by
  cases h with
  | response h => exact resultRel_result hparse henvelope h
  | timeout => exact .error ⟨rfl, rfl, fun mutating => by cases mutating <;> rfl⟩
  | httpError => exact .error ⟨rfl, rfl, fun mutating => by cases mutating <;> rfl⟩

end BinanceTh
