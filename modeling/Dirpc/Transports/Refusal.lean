import Dirpc.Transports.Handshake

namespace Dirpc

open Base

def httpErrorResponse (status body : String) : List Char :=
  "HTTP/1.1 ".toList ++ status.toList ++ "\r\nContent-Length: ".toList ++
    (toString (byteLen body.toList)).toList ++ "\r\nConnection: close\r\n\r\n".toList ++ body.toList

def responseHead (status length : List Char) : List (List Char) :=
  ["HTTP/1.1 ".toList ++ status, "Content-Length: ".toList ++ length, "Connection: close".toList, []]

theorem responseHead_text (status length body : List Char) :
    "HTTP/1.1 ".toList ++ status ++ "\r\nContent-Length: ".toList ++ length ++
        "\r\nConnection: close\r\n\r\n".toList ++ body =
      ((responseHead status length).flatMap fun line => line ++ ['\r', '\n']) ++ body := by
  simp [responseHead]

theorem parseU32_toString {n : Nat} (small : n < 2 ^ 32) :
    parseU32 (toString n).toList = some n := by
  have digits : ∀ c ∈ Nat.toDigits 10 n, c.isDigit = true :=
    fun _ member => Nat.isDigit_of_mem_toDigits (by decide) (by decide) member
  have filled : (Nat.toDigits 10 n).isEmpty = false := by simp
  have value : (Nat.toDigits 10 n).foldl (fun value c => 10 * value + (c.toNat - 48)) 0 = n :=
    Nat.ofDigitChars_ten_toDigits
  change parseU32 n.repr.toList = some n
  rw [Nat.toList_repr]
  generalize Nat.toDigits 10 n = text at digits filled value
  unfold parseU32
  split
  · exact absurd (digits '+' List.mem_cons_self) (by decide)
  · dsimp only
    rw [filled, List.all_eq_true.mpr digits, value, if_pos small]
    rfl

theorem toString_unbroken (n : Nat) : '\n' ∉ (toString n).toList := by
  change '\n' ∉ n.repr.toList
  rw [Nat.toList_repr]
  intro member
  exact absurd (Nat.isDigit_of_mem_toDigits (by decide) (by decide) member) (by decide)

/-- A reader of the head, whose last line is its only empty one, finds how many bytes follow. -/
def LengthFramed (response : List UInt8) (status body : List Char) : Prop :=
  ∃ head length, response = bytes head ++ bytes body ∧ lines head = responseHead status length ∧
    parseU32 length = some (bytes body).length

theorem httpErrorResponse_framed {status body : String} (clean : '\n' ∉ status.toList)
    (small : byteLen body.toList < 2 ^ 32) :
    LengthFramed (bytes (httpErrorResponse status body)) status.toList body.toList := by
  have unbroken := toString_unbroken (byteLen body.toList)
  have counted := parseU32_toString small
  rw [← bytes_length] at counted
  unfold httpErrorResponse
  rw [← bytes_length] at unbroken ⊢
  generalize (toString (bytes body.toList).length).toList = length at unbroken counted
  rw [responseHead_text, bytes_append]
  refine ⟨_, length, rfl, ?_, counted⟩
  apply lines_crlf
  intro line member
  simp only [responseHead, List.mem_cons, List.not_mem_nil, or_false] at member
  rcases member with rfl | rfl | rfl | rfl
  · simp [clean]
  · simp [unbroken]
  · simp
  · simp

/-- What `do_handshake` writes before it returns; the response to an upgrade is the library's. -/
def Handshaken.response (accept : String → List UInt8) : Handshaken → List UInt8
  | .more | .failed => []
  | .refused status body _ => bytes (httpErrorResponse status body)
  | .upgraded key _ => accept key

def Ended (parse : List UInt8 → Parsed) (accept : String → List UInt8) (read : List UInt8) :
    Handshaken → Prop
  | .more => True
  | .failed => read.length ≤ maxWsHandshakeBytes ∧ parse read = .error
  | .refused status body error =>
    (maxWsHandshakeBytes < read.length ∨ ∃ key, parse read = .request key) ∧
      status.toList.head? = some '4' ∧
      LengthFramed ((Handshaken.refused status body error).response accept) status.toList body.toList
  | .upgraded key _ => read.length ≤ maxWsHandshakeBytes ∧ parse read = .request key

variable {parse : List UInt8 → Parsed}

theorem checkRequest_ended (accept : String → List UInt8) {buf : List UInt8} {outcome : Handshaken}
    (checked : checkRequest parse buf = some outcome) : Ended parse accept buf outcome := by
  unfold checkRequest at checked
  split at checked
  · rename_i large
    cases checked
    exact ⟨.inl large, rfl, httpErrorResponse_framed (by decide) (by decide)⟩
  · rename_i fits
    split at checked
    · rename_i rejected
      cases checked
      exact ⟨Nat.not_lt.mp fits, rejected⟩
    · cases checked
      trivial
    · rename_i key accepted
      dsimp only at checked
      split at checked
      · cases checked
        exact ⟨.inr ⟨key, accepted⟩, rfl, httpErrorResponse_framed (by decide) (by decide)⟩
      · split at checked
        · cases checked
          exact ⟨.inr ⟨key, accepted⟩, rfl, httpErrorResponse_framed (by decide) (by decide)⟩
        · obtain ⟨origin, _, chosen⟩ := Option.map_eq_some_iff.mp checked
          split at chosen
          · cases chosen
            exact ⟨.inr ⟨key, accepted⟩, rfl, httpErrorResponse_framed (by decide) (by decide)⟩
          · cases chosen
            exact ⟨Nat.not_lt.mp fits, accepted⟩

theorem doHandshake_ended (accept : String → List UInt8) {chunks : List (List UInt8)} {buf read : List UInt8}
    {outcome : Handshaken} (ended : doHandshake parse chunks buf = some (read, outcome)) :
    (outcome = .failed ∧ read = buf ++ (chunks.takeWhile (· ≠ [])).flatten) ∨
      (outcome ≠ .more ∧ Ended parse accept read outcome) := by
  induction chunks generalizing buf with
  | nil =>
    cases ended
    exact .inl ⟨rfl, (List.append_nil _).symm⟩
  | cons chunk chunks ih =>
    rw [doHandshake] at ended
    split at ended
    · rename_i blank
      cases ended
      exact .inl ⟨rfl, by simp [blank]⟩
    · rename_i filled
      obtain ⟨found, checked, rest⟩ := Option.bind_eq_some_iff.mp ended
      cases found with
      | more =>
        rcases ih rest with ⟨failed, all⟩ | decided
        · exact .inl ⟨failed, by simp [all, filled]⟩
        · exact .inr decided
      | _ =>
        cases rest
        refine .inr ⟨?_, checkRequest_ended accept checked⟩
        simp

/-- Whatever arrives and however it is cut: what the handshake writes before it returns. Nothing, when
    the stream ends or the parser rejects what was read; the library's response to an upgrade; and
    otherwise one response with an error status, of which the head ends at its first empty line and
    gives the length of what follows in bytes. -/
theorem handshake_responses (accept : String → List UInt8) {chunks : List (List UInt8)}
    {read : List UInt8} {outcome : Handshaken}
    (ended : doHandshake parse chunks [] = some (read, outcome)) :
    (outcome = .failed ∧ outcome.response accept = [] ∧
        (read = (chunks.takeWhile (· ≠ [])).flatten ∨
          (read.length ≤ maxWsHandshakeBytes ∧ parse read = .error))) ∨
      (∃ key clientId, outcome = .upgraded key clientId ∧ outcome.response accept = accept key ∧
        read.length ≤ maxWsHandshakeBytes ∧ parse read = .request key) ∨
      ∃ status body error, outcome = .refused status body error ∧
        (maxWsHandshakeBytes < read.length ∨ ∃ key, parse read = .request key) ∧
        status.toList.head? = some '4' ∧
        LengthFramed (outcome.response accept) status.toList body.toList := by
  rcases doHandshake_ended accept ended with ⟨rfl, all⟩ | ⟨decided, told⟩
  · exact .inl ⟨rfl, rfl, .inl all⟩
  · cases outcome with
    | more => exact absurd rfl decided
    | failed => exact .inl ⟨rfl, rfl, .inr told⟩
    | refused status body error => exact .inr (.inr ⟨status, body, error, rfl, told⟩)
    | upgraded key clientId => exact .inr (.inl ⟨key, clientId, rfl, rfl, told⟩)

theorem handshake_responses_anonymous : ∃ outcome head length,
    doHandshake limitedParse [bytes anonymousRequest.text] [] =
        some (bytes anonymousRequest.text, outcome) ∧
      outcome.response (fun _ => []) = bytes head ++ bytes "v must be 1".toList ∧
      lines head = responseHead "400 Bad Request".toList length ∧ parseU32 length = some 11 := by
  have accepted : limitedParse (bytes anonymousRequest.text) =
      .request "dGhlIHNhbXBsZSBub25jZQ==" :=
    limitedParse_text (by decide +kernel) (by decide +kernel)
  have reads := reads_limitedParse (.inl accepted) (by decide +kernel)
  have ended : doHandshake limitedParse [bytes anonymousRequest.text] [] =
      some (bytes anonymousRequest.text, .refused "400 Bad Request" "v must be 1" "WS: v must be 1") :=
    doHandshake_accepted reads accepted (List.flatten_singleton ..) (by decide +kernel) []
      (by decide +kernel)
  rcases handshake_responses (fun _ => []) ended with ⟨failed, _⟩ | ⟨_, _, upgraded, _⟩ |
      ⟨status, body, error, same, _, _, head, length, split, lined, counted⟩
  · cases failed
  · cases upgraded
  · cases same
    exact ⟨_, head, length, ended, split, lined, counted⟩

end Dirpc
