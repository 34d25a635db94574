import IbverbPrototype.Roce.FrameDelivery

/-! What the server prints about itself, copied onto the command lines of the two senders: both
come to send to this server and to no other. -/
namespace IbverbPrototype.Rdma
open Foundations.ByteOrder Foundations.FormattedText Foundations.Ipv6Text Foundations.Halting
open Roce Address

/-- What an operator copies out of the server's lines. -/
structure Report where
  lid : String
  qpn : String
  gid : String

/-- The lines without their labels. -/
def readReport (text : List Char) : Option Report :=
  match (text.splitOn '\n').map (List.drop 5) with
  | [lid, qpn, gid, _] => some ⟨String.ofList lid, String.ofList qpn, String.ofList gid⟩
  | _ => none

/-- Of the library's readers, that they read what its printers print. -/
structure ReadsBack (lib : Library) : Prop where
  atoi : ∀ i : Int, -2^31 ≤ i → i < 2^31 → lib.atoi (String.ofList (decimal i)) = BitVec.ofInt 32 i
  inetPton : ∀ text gid, inetPton text = some gid → lib.inetPtonInet6 (String.ofList text) = some gid

/-- The client gets the server's own addresses out of the report, whatever its variable held. -/
def ClientReaches (lib : Library) (report : Report) (lid : BitVec 16) (qpn : BitVec 32) (gid : Gid) : Prop :=
  ∀ before name driver call, rdmaClient lib before [name, driver, report.gid, report.lid, report.qpn] = .ok call →
    call.lid = lid.setWidth 32 ∧ call.gid = gid ∧ call.qpn = qpn

/-- On every host command line with the report's texts, every frame of every run is for the
server's queue pair at the port its host resolves to. -/
def RawReaches (lib : Library) (report : Report) (qpn : BitVec 32) (gid : Gid) : Prop :=
  ∀ argv ifname host start, rawForm argv = some (.host ifname host report.gid report.qpn) →
    rawIbverbs lib argv = .ok start → ∀ cells answers k frame,
      (hostFrames start.localAddr start.remote start.queuePair cells answers)[k]? = some frame → k < 2^31 →
      ∀ (q : QueuePair) data, admits q frame = some data ↔
        (∃ ipv4, lib.getaddrinfo host = some ipv4 ∧ lib.siocgarp ifname ipv4 = some q.mac) ∧ q.gid = gid ∧
          q.number = qpn.toNat % 2^24 ∧ data = numberedPayload k

variable {lib : Library} {report : Report} {lid : BitVec 16} {qpn : BitVec 32} {gid : Gid}

theorem decimal_line (i : Int) : '\n' ∉ decimal i := by
  have hdigits : ∀ n, '\n' ∉ Nat.toDigits 10 n := by
    intro n hn
    have hdigit := Nat.isDigit_of_mem_toDigits (by decide) (by decide) hn
    exact absurd hdigit (by decide)
  intro hmem
  cases i with
  | ofNat n => exact hdigits n hmem
  | negSucc n =>
    rcases List.mem_cons.mp hmem with hsign | hrest
    · exact absurd hsign (by decide)
    · exact hdigits (n+1) hrest

/-- What a hexadecimal reader takes are hexadecimal digits. -/
theorem readDigits_digits {text : List Char} {acc value : Nat} (h : readDigits text acc = some value) :
    ∀ c ∈ text, hexValue c ≠ none := by
  induction text generalizing acc with
  | nil => exact fun c hc => absurd hc List.not_mem_nil
  | cons b text ih =>
    rw [readDigits, Option.bind_eq_bind, Option.bind_eq_some_iff] at h
    obtain ⟨d,hd,hrest⟩ := h
    intro c hc
    rcases List.mem_cons.mp hc with rfl | hc
    · rw [hd]
      exact Option.some_ne_none d
    · exact ih hrest c hc

theorem mem_joinPieces {ps : List (List Char)} {c : Char} (h : c ∈ joinPieces ps) : c = ':' ∨ ∃ p ∈ ps, c ∈ p := by
  fun_induction joinPieces ps with
  | case1 => cases h
  | case2 p => exact .inr ⟨p,List.mem_singleton_self p,h⟩
  | case3 p ps _ ih =>
    rcases List.mem_append.mp h with hp | hrest
    · exact .inr ⟨p,List.mem_cons_self,hp⟩
    · rcases List.mem_cons.mp hrest with rfl | hrest
      · exact .inl rfl
      · rcases ih hrest with rfl | ⟨p',hp',hc⟩
        · exact .inl rfl
        · exact .inr ⟨p',List.mem_cons_of_mem _ hp',hc⟩

theorem mem_pieces {gs : List Nat} {p : List Char} (h : p ∈ pieces gs) : p = [] ∨ ∃ g, p = hexText g := by
  have hgroups : ∀ {xs : List Nat}, p ∈ xs.map hexText → p = [] ∨ ∃ g, p = hexText g := by
    intro xs hp
    obtain ⟨g,-,rfl⟩ := List.mem_map.mp hp
    exact .inr ⟨g,rfl⟩
  unfold pieces at h
  split at h
  split at h
  · exact hgroups h
  · simp only [List.mem_append, List.mem_ite_nil_right, List.mem_singleton] at h
    rcases h with (((⟨-,hp⟩ | hp) | hp) | hp) | ⟨-,hp⟩
    · exact .inl hp
    · exact hgroups hp
    · exact .inl hp
    · exact hgroups hp
    · exact .inl hp

theorem ipv6Text_line (gs : List Nat) : '\n' ∉ ipv6Text gs := by
  intro h
  rcases mem_joinPieces h with hcolon | ⟨p,hp,hin⟩
  · exact absurd hcolon (by decide)
  · rcases mem_pieces hp with rfl | ⟨g,rfl⟩
    · cases hin
    · exact readDigits_digits (hexText_spec g).1 '\n' hin (by decide)

/-- The lines of a report, the text behind the last of them empty. -/
def ServerAddress.lines (address : ServerAddress) : List (List Char) :=
  ["LID: ".toList ++ decimal address.lid.toNat, "QPN: ".toList ++ decimal address.qpn.toInt,
    "GID: ".toList ++ address.gid, []]

theorem joined_lines (lid qpn gid : List Char) :
    "LID: ".toList ++ lid ++ "\nQPN: ".toList ++ qpn ++ "\nGID: ".toList ++ gid ++ "\n".toList =
      ['\n'].intercalate ["LID: ".toList ++ lid, "QPN: ".toList ++ qpn, "GID: ".toList ++ gid, []] := by
  have hqpn : "\nQPN: ".toList = ['\n'] ++ "QPN: ".toList := rfl
  have hgid : "\nGID: ".toList = ['\n'] ++ "GID: ".toList := rfl
  have hend : "\n".toList = ['\n'] := rfl
  rw [hqpn, hgid, hend]
  simp only [List.intercalate_cons_cons, List.intercalate_singleton, List.append_assoc, List.append_nil]

theorem text_lines (address : ServerAddress) : address.text = ['\n'].intercalate address.lines :=
  joined_lines _ _ _

/-- The report is read back field by field. -/
theorem readReport_text {address : ServerAddress} (hgid : '\n' ∉ address.gid) :
    readReport address.text = some ⟨String.ofList (decimal address.lid.toNat),
      String.ofList (decimal address.qpn.toInt), String.ofList address.gid⟩ := by
  have hlines : ∀ l ∈ address.lines, '\n' ∉ l := by
    intro l hl
    simp only [ServerAddress.lines, List.mem_cons, List.not_mem_nil, or_false] at hl
    rcases hl with rfl | rfl | rfl | rfl
    · exact List.not_mem_append (by decide) (decimal_line _)
    · exact List.not_mem_append (by decide) (decimal_line _)
    · exact List.not_mem_append (by decide) hgid
    · exact List.not_mem_nil
  rw [readReport, text_lines, List.splitOn_intercalate '\n' hlines (List.cons_ne_nil _ _)]
  rfl

theorem client_reaches_server (hlid : lib.atoi report.lid = lid.setWidth 32) (hqpn : lib.atoi report.qpn = qpn)
    (hgid : lib.inetPtonInet6 report.gid = some gid) : ClientReaches lib report lid qpn gid := by
  intro before name driver call hcall
  simp only [rdmaClient, clientForm, bind_eq_ok, orExit_eq_ok, require_eq_ok, Option.some.injEq,
    Except.ok.injEq] at hcall
  obtain ⟨form,rfl,-,-,rfl⟩ := hcall
  exact ⟨hlid,by rw [hgid, Option.getD_some],hqpn⟩

theorem raw_reaches_server (hqpn : lib.atoi report.qpn = qpn) (hgid : lib.inetPtonInet6 report.gid = some gid) :
    RawReaches lib report qpn gid := by
  intro argv ifname host start hform hstart cells answers k frame hframe hbound q data
  rw [hostFrames_admitted q hframe hbound, Option.ite_none_right_eq_some, rawIbverbs_host hform hstart q,
    Option.some_inj, eq_comm (a := numberedPayload k)]
  constructor
  · rintro ⟨⟨hmac,hqgid,hnumber⟩,hdata⟩
    exact ⟨hmac,by rw [hqgid, hgid, Option.getD_some],by rw [hnumber, hqpn],hdata⟩
  · rintro ⟨hmac,rfl,hnumber,hdata⟩
    exact ⟨⟨hmac,by rw [hgid, Option.getD_some],by rw [hnumber, hqpn]⟩,hdata⟩

/-- A reader of decimal numbers. -/
def readInt (text : List Char) : BitVec 32 :=
  if text.head? = some '-' then BitVec.ofInt 32 (-(decimalValue text.tail)) else BitVec.ofInt 32 (decimalValue text)

theorem readInt_decimal (i : Int) : readInt (decimal i) = BitVec.ofInt 32 i := by
  cases i with
  | ofNat n =>
    have hsign : (Nat.toDigits 10 n).head? ≠ some '-' := by
      intro hhead
      have hdigit := Nat.isDigit_of_mem_toDigits (by decide) (by decide) (List.mem_of_mem_head? hhead)
      exact absurd hdigit (by decide)
    have hvalue : decimalValue (Nat.toDigits 10 n) = n := decimalValue_decimal n
    rw [decimal, readInt, if_neg hsign, hvalue]
    rfl
  | negSucc n =>
    have hvalue : decimalValue (Nat.toDigits 10 (n+1)) = n+1 := decimalValue_decimal (n+1)
    rw [decimal, readInt, List.head?_cons, if_pos rfl, List.tail_cons, hvalue]
    rfl

/-- A system that reads numbers too. -/
def readingLibrary : Library where
  __ := hostLibrary
  atoi text := readInt text.toList

theorem readingLibrary_reads : ReadsBack readingLibrary where
  atoi i _ _ := by
    change readInt (String.ofList (decimal i)).toList = _
    rw [String.toList_ofList, readInt_decimal]
  inetPton text gid htext := by
    change inetPton (String.ofList text).toList = _
    rw [String.toList_ofList, htext]

end IbverbPrototype.Rdma
