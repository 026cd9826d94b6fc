import BinanceTh.Lib.Percent
import BinanceTh.Transport.Sending

/-!
# What is signed and what is sent

The signer joins the raw parameters and signs that text; the HTTP client joins them again, with
keys and values percent-encoded. The two texts are one exactly when nothing needs encoding. Also the
signature comes last only if the caller passes no `signature` of its own: a key that is there keeps
its place. `SafeToSign` says both of the caller's parameters, `request_sentAsSigned_iff` is the
result for every transmission of a signed call.
-/

namespace BinanceTh

open Interaction Percent

/-- The query string of a request: percent-encoded pairs in mapping order. -/
def encodedQuery (params : Params) : String :=
  query ((params.map fun kv => (kv.1, kv.2.toStr)).map encodePair)

/-- The caller's parameters need no encoding, as far as they are not overwritten; a `signature`
among them comes last, and behind the other two that signing adds. -/
structure SafeToSign (params : Params) : Prop where
  plain : ∀ kv ∈ params, kv.1 ≠ "signature" →
    Plain kv.1 ∧ (kv.1 ≠ "timestamp" → Plain kv.2.toStr)
  signature : "signature" ∈ params.map (·.1) →
    (params.map (·.1)).getLast? = some "signature" ∧ "recvWindow" ∈ params.map (·.1) ∧
      "timestamp" ∈ params.map (·.1)

namespace Signer

/-- `hexdigest` gives hexadecimal digits. -/
def HexDigest (signer : Signer) : Prop :=
  ∀ payload, ∀ c ∈ (signer.signPayload signer.apiSecret payload).toList,
    c.isDigit = true ∨ c ∈ ['a', 'b', 'c', 'd', 'e', 'f']

/-- The parameters that the signature covers. -/
def stamped (params : Params) (timestamp recvWindow : ℤ) : Dict String :=
  Dict.set (ordered params recvWindow) "timestamp" (toString timestamp)

/-- The text that is signed. -/
def payload (params : Params) (timestamp recvWindow : ℤ) : String :=
  buildQuery (stamped params timestamp recvWindow)

/-- The parameters handed to the HTTP client. -/
def sentParams (signer : Signer) (params : Params) (timestamp recvWindow : ℤ) : Params :=
  (signer.signedParams params timestamp recvWindow).map fun kv => (kv.1, ParamValue.str kv.2)

/-- The query sent is the signed text and its signature, which comes last and once. -/
structure SentAsSigned (signer : Signer) (payload : String) (sent : Params) : Prop where
  query : encodedQuery sent =
    payload ++ "&signature=" ++ signer.signPayload signer.apiSecret payload
  last : (sent.map (·.1)).getLast? = some "signature"
  once : (sent.map (·.1)).count "signature" = 1

variable {signer : Signer} {params : Params} {timestamp recvWindow : ℤ}

theorem HexDigest.plain (h : signer.HexDigest) (payload : String) :
    Plain (signer.signPayload signer.apiSecret payload) := by
  intro c hc
  rcases h payload c hc with hdigit | hletter
  · exact isUnreserved_of_isDigit hdigit
  · simp only [List.mem_cons, List.not_mem_nil, or_false] at hletter
    rcases hletter with rfl | rfl | rfl | rfl | rfl | rfl <;> rfl

theorem signedParams_eq : signer.signedParams params timestamp recvWindow =
    Dict.set (stamped params timestamp recvWindow) "signature"
      (signer.signPayload signer.apiSecret (payload params timestamp recvWindow)) := rfl

theorem payload_eq : payload params timestamp recvWindow =
    Percent.query ((stamped params timestamp recvWindow).filter fun kv => kv.1 ≠ "signature") := rfl

/-! ## The keys -/

theorem keys_ordered : (ordered params recvWindow).map (·.1) =
    if "recvWindow" ∈ params.map (·.1) then params.map (·.1)
    else params.map (·.1) ++ ["recvWindow"] := by
  have hkeys : (params.map fun kv => (kv.1, kv.2.toStr)).map (·.1) = params.map (·.1) := by
    simp
  unfold ordered
  simp only [Dict.contains_iff, hkeys]
  split
  · exact hkeys
  · next hnew => rw [Dict.keys_set, hkeys, if_neg hnew]

theorem keys_stamped : (stamped params timestamp recvWindow).map (·.1) =
    if "timestamp" ∈ params.map (·.1) then (ordered params recvWindow).map (·.1)
    else (ordered params recvWindow).map (·.1) ++ ["timestamp"] := by
  have hmem : "timestamp" ∈ (ordered params recvWindow).map (·.1) ↔
      "timestamp" ∈ params.map (·.1) := by
    rw [keys_ordered]
    split <;> simp
  rw [stamped, Dict.keys_set]
  simp only [hmem]

theorem nodup_keys_ordered (h : (params.map (·.1)).Nodup) :
    ((ordered params recvWindow).map (·.1)).Nodup := by
  rw [keys_ordered]
  split
  · exact h
  · next hnew => exact h.append (List.nodup_singleton _) (by simpa using hnew)

theorem nodup_keys_stamped (h : (params.map (·.1)).Nodup) :
    ((stamped params timestamp recvWindow).map (·.1)).Nodup :=
  Dict.nodup_keys_set (nodup_keys_ordered h) _ _

/-- The signature comes last if it is new, or if nothing at all is. -/
theorem getLast?_signedParams :
    ((signer.signedParams params timestamp recvWindow).map (·.1)).getLast? = some "signature" ↔
      ("signature" ∈ params.map (·.1) →
        (params.map (·.1)).getLast? = some "signature" ∧ "recvWindow" ∈ params.map (·.1) ∧
          "timestamp" ∈ params.map (·.1)) := by
  have hmem : "signature" ∈ (stamped params timestamp recvWindow).map (·.1) ↔
      "signature" ∈ params.map (·.1) := by
    rw [keys_stamped, keys_ordered]
    split <;> split <;> simp
  rw [signedParams_eq, Dict.keys_set]
  simp only [hmem]
  split
  · next hold =>
    rw [keys_stamped, keys_ordered]
    split <;> split <;> simp_all
  · next hnew => simp [hnew]

/-! ## The query -/

theorem mem_stamped_iff {kv : String × String} :
    kv ∈ stamped params timestamp recvWindow ↔ kv = ("timestamp", toString timestamp) ∨
      kv ∈ ordered params recvWindow ∧ kv.1 ≠ "timestamp" := Dict.mem_set_iff

theorem mem_ordered {kv : String × String} (h : kv ∈ ordered params recvWindow) :
    kv = ("recvWindow", toString recvWindow) ∨
      kv ∈ params.map fun kv => (kv.1, kv.2.toStr) := by
  unfold ordered at h
  simp only at h
  split at h
  · exact .inr h
  · rcases Dict.mem_set_iff.1 h with hnew | ⟨hold, -⟩
    · exact .inl hnew
    · exact .inr hold

theorem mem_ordered_of_mem {kv : String × String}
    (h : kv ∈ params.map fun kv => (kv.1, kv.2.toStr)) : kv ∈ ordered params recvWindow := by
  unfold ordered
  simp only
  split
  · exact h
  · next hno =>
    refine Dict.mem_set_iff.2 (.inr ⟨h, fun heq => hno (Dict.contains_iff.2 ?_)⟩)
    exact List.mem_map.2 ⟨kv, h, heq⟩

/-- What is signed is plain exactly when the caller's part of it is. -/
theorem plain_stamped_iff :
    (∀ kv ∈ (stamped params timestamp recvWindow).filter fun kv => kv.1 ≠ "signature",
      Plain kv.1 ∧ Plain kv.2) ↔
    ∀ kv ∈ params, kv.1 ≠ "signature" →
      Plain kv.1 ∧ (kv.1 ≠ "timestamp" → Plain kv.2.toStr) := by
  have htimestamp : Plain "timestamp" := by decide
  have hrecvWindow : Plain "recvWindow" := by decide
  constructor
  · intro h kv hkv hsign
    have hold : (kv.1, kv.2.toStr) ∈ ordered params recvWindow :=
      mem_ordered_of_mem (List.mem_map.2 ⟨kv, hkv, rfl⟩)
    by_cases htime : kv.1 = "timestamp"
    · rw [htime]
      exact ⟨htimestamp, fun hne => absurd rfl hne⟩
    · have hsigned : (kv.1, kv.2.toStr) ∈ stamped params timestamp recvWindow :=
        mem_stamped_iff.2 (.inr ⟨hold, htime⟩)
      obtain ⟨hkey, hvalue⟩ := h _ (List.mem_filter.2 ⟨hsigned, by simpa using hsign⟩)
      exact ⟨hkey, fun _ => hvalue⟩
  · intro h kv hkv
    obtain ⟨hkv, hsign⟩ := List.mem_filter.1 hkv
    rcases mem_stamped_iff.1 hkv with rfl | ⟨hkv, htime⟩
    · exact ⟨htimestamp, plain_toString_int timestamp⟩
    · rcases mem_ordered hkv with rfl | hkv
      · exact ⟨hrecvWindow, plain_toString_int recvWindow⟩
      · obtain ⟨kv₀, hkv₀, rfl⟩ := List.mem_map.1 hkv
        obtain ⟨hkey, hvalue⟩ := h kv₀ hkv₀ (by simpa using hsign)
        exact ⟨hkey, hvalue htime⟩

theorem keys_sentParams : (signer.sentParams params timestamp recvWindow).map (·.1) =
    (signer.signedParams params timestamp recvWindow).map (·.1) := by
  simp [sentParams]

/-- Where the signature comes last, the query sent is that of the signed parameters, encoded. -/
theorem encodedQuery_sentParams (hhex : signer.HexDigest) (hkeys : (params.map (·.1)).Nodup)
    (hlast : ((signer.signedParams params timestamp recvWindow).map (·.1)).getLast? =
      some "signature") :
    encodedQuery (signer.sentParams params timestamp recvWindow) =
      Percent.query (((stamped params timestamp recvWindow).filter
          fun kv => kv.1 ≠ "signature").map encodePair) ++
        "&signature=" ++ signer.signPayload signer.apiSecret
          (payload params timestamp recvWindow) := by
  have hpairs : (signer.sentParams params timestamp recvWindow).map
      (fun kv => (kv.1, kv.2.toStr)) = signer.signedParams params timestamp recvWindow := by
    simp [sentParams, ParamValue.toStr, Function.comp_def]
  have hstamped : ((stamped params timestamp recvWindow).filter fun kv => kv.1 ≠ "signature") ≠ [] :=
    List.ne_nil_of_mem (List.mem_filter.2 ⟨mem_stamped_iff.2 (.inl rfl), by simp⟩)
  have hsignature : Plain "signature" := by decide
  have hplain : encodePair ("signature", signer.signPayload signer.apiSecret
        (payload params timestamp recvWindow)) =
      ("signature", signer.signPayload signer.apiSecret
        (payload params timestamp recvWindow)) := by
    rw [encodePair, encode_of_plain (hhex.plain _), encode_of_plain hsignature]
  rw [signedParams_eq] at hlast
  rw [encodedQuery, hpairs, signedParams_eq, Dict.set_eq_concat (nodup_keys_stamped hkeys) hlast,
    List.map_append, List.map_singleton, hplain, query_concat (by simpa using hstamped)]
  simp only [String.append_assoc]
  rfl

/-- **What is signed is what is sent** exactly when the caller's parameters are safe. -/
theorem sentAsSigned_iff (hhex : signer.HexDigest) (hkeys : (params.map (·.1)).Nodup) :
    signer.SentAsSigned (payload params timestamp recvWindow)
      (signer.sentParams params timestamp recvWindow) ↔ SafeToSign params := by
  constructor
  · intro h
    have hlast := h.last
    rw [keys_sentParams] at hlast
    have heq := (encodedQuery_sentParams hhex hkeys hlast).symm.trans h.query
    rw [String.append_assoc, String.append_assoc, String.append_left_inj, payload_eq,
      query_encode_eq_iff] at heq
    exact ⟨plain_stamped_iff.1 heq, getLast?_signedParams.1 hlast⟩
  · intro h
    have hlast : ((signer.signedParams params timestamp recvWindow).map (·.1)).getLast? =
        some "signature" := getLast?_signedParams.2 h.signature
    constructor
    case query =>
      have hplain : ∀ kv ∈ (stamped params timestamp recvWindow).filter
          fun kv => kv.1 ≠ "signature", Plain kv.1 ∧ Plain kv.2 := plain_stamped_iff.2 h.plain
      rw [encodedQuery_sentParams hhex hkeys hlast, (query_encode_eq_iff _).2 hplain, ← payload_eq]
    case last =>
      rw [keys_sentParams]
      exact hlast
    case once =>
      rw [keys_sentParams]
      refine List.count_eq_one_of_mem ?_ (List.mem_of_getLast? hlast)
      rw [signedParams_eq]
      exact Dict.nodup_keys_set (nodup_keys_stamped hkeys) _ _

end Signer

namespace Transport

open Signer

/-- **Every transmission of a signed call** sends what was signed, exactly when the caller's
parameters are safe. -/
theorem request_sentAsSigned_iff (T : Transport) (call : Call) (signer : Signer)
    (hsigned : call.signed = true) (hsigner : T.signer = some signer) (hhex : signer.HexDigest)
    (hkeys : (call.params.map (·.1)).Nodup) {s s' : TimeSync} {tr : List Ev} {r : Except Exc Json}
    (h : Runs (T.request call) s tr r s') {x : Exchange} (hx : x ∈ sends tr)
    (hown : call.isOwn x.1 = true) :
    ∃ timestamp, x.1.params = signer.sentParams call.params timestamp T.config.recvWindow ∧
      (signer.SentAsSigned (payload call.params timestamp T.config.recvWindow) x.1.params ↔
        SafeToSign call.params) := by
  cases request_origin h hx with
  | time _ htime =>
    rw [htime, isOwn_timeRequest hsigned] at hown
    cases hown
  | own s₁ clock hreq =>
    have hparams : x.1.params =
        signer.sentParams call.params (s₁.nowMs clock) T.config.recvWindow := by
      rw [hreq, httpRequest, paramsAt, if_pos hsigned, hsigner]
      rfl
    refine ⟨s₁.nowMs clock, hparams, ?_⟩
    rw [hparams]
    exact sentAsSigned_iff hhex hkeys

/-- A transport whose digests are hexadecimal. -/
def hexTransport : Transport :=
  .ofConfig sampleTransport.config (fun _ _ => "5f2b") samplePydantic fun _ => ""

def hexSigner : Signer := ⟨"secret", fun _ _ => "5f2b"⟩

theorem hexDigest_hexSigner : hexSigner.HexDigest := by
  intro payload c hc
  have hdigits : "5f2b".toList = ['5', 'f', '2', 'b'] := by decide
  change c ∈ "5f2b".toList at hc
  simp only [hdigits, List.mem_cons, List.not_mem_nil, or_false] at hc
  rcases hc with rfl | rfl | rfl | rfl <;> decide

def signedOrder (params : Params) : Call where
  method := "POST"
  path := "/api/v1/order"
  params := params
  signed := true

theorem request_sentAsSigned_plain :
    let call := signedOrder [("symbol", .str "BTCTHB"), ("newClientOrderId", .str "my-id_1")]
    let run := (hexTransport.request call).play (scripted []) ⟨0, true⟩
    ∃ x ∈ sends run.1, ∃ timestamp,
      hexSigner.SentAsSigned (payload call.params timestamp 5000) x.1.params := by
  intro call run
  obtain ⟨x, hx⟩ : ∃ x, sends run.1 = [x] := ⟨_, rfl⟩
  have hmem : x ∈ sends run.1 := by rw [hx]; exact List.mem_singleton_self x
  have hown : call.isOwn x.1 = true := by
    obtain rfl := List.singleton_inj.1 hx
    rfl
  obtain ⟨timestamp, -, hiff⟩ := request_sentAsSigned_iff hexTransport call hexSigner rfl rfl
    hexDigest_hexSigner (by decide) (Comp.runs_play _ _ _).1 hmem hown
  refine ⟨x, hmem, timestamp, hiff.2 ⟨?_, ?_⟩⟩
  · decide
  · decide

/-- The `/` of a symbol is signed as it is, and sent as `%2F`. A caller's own `signature` is
replaced where it stands, before what signing adds. -/
theorem not_request_sentAsSigned :
    let slash := signedOrder [("symbol", .str "BTC/THB")]
    let own := signedOrder [("signature", .str ""), ("symbol", .str "BTCTHB")]
    (∃ x ∈ sends ((hexTransport.request slash).play (scripted []) ⟨0, true⟩).1,
      encodedQuery x.1.params =
        "symbol=BTC%2FTHB&recvWindow=5000&timestamp=0&signature=5f2b" ∧
      payload slash.params 0 5000 = "symbol=BTC/THB&recvWindow=5000&timestamp=0" ∧
      ¬ hexSigner.SentAsSigned (payload slash.params 0 5000) x.1.params) ∧
    ∃ x ∈ sends ((hexTransport.request own).play (scripted []) ⟨0, true⟩).1,
      encodedQuery x.1.params = "signature=5f2b&symbol=BTCTHB&recvWindow=5000&timestamp=0" ∧
      payload own.params 0 5000 = "symbol=BTCTHB&recvWindow=5000&timestamp=0" ∧
      ¬ hexSigner.SentAsSigned (payload own.params 0 5000) x.1.params := by
  refine ⟨⟨_, List.mem_singleton_self _, by decide, by decide, ?_⟩, _, List.mem_singleton_self _,
    by decide, by decide, ?_⟩
  · intro hsent
    exact absurd hsent.query (by decide)
  · intro hsent
    exact absurd hsent.last (by decide)

end Transport

end BinanceTh
