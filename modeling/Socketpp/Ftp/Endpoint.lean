import Socketpp.Protocol.Commands
import Socketpp.Ftp.Transfers
import Socketpp.Sockinet.Address

/-!
# Ftp — the argument of PORT

`useraddr` tells the server where to connect: the four bytes of the address and the two of the port, in
decimal and with commas between them.  A server reads them back (`readPort`), and finds the address and the
port that the sockinetaddr holds (`port_round_trip`).
-/

namespace Socketpp
open Lib

namespace Ftpbuf

/-- A field of the argument, as a server reads it. -/
def octet (field : List Byte) : Option Byte :=
  (Decimal.parse field).bind fun n => if n ≤ 255 then some (UInt8.ofNat n) else none

/-- The argument, as a server reads it. -/
def readPort (text : List Byte) : Option (InAddr × Int) :=
  match (text.splitOn 44).mapM octet with
  | some [a, b, c, d, h, l] => some (⟨a, b, c, d⟩, h.toNat * 256 + l.toNat)
  | _ => none

/-- The numbers in the argument. -/
def octets (ina : InAddr) (portno : Nat) : List Nat :=
  [ina.a.toNat, ina.b.toNat, ina.c.toNat, ina.d.toNat, portno / 256, portno % 256]

variable {ina : InAddr} {portno n : Nat}

theorem decimal_natCast (n : Nat) : decimal n = Decimal.print n := by
  show ascii (toString (n : Int)) = _
  have hstr : toString (n : Int) = n.repr := rfl
  rw [hstr, ascii, Nat.toList_repr, Decimal.print]

theorem octets_le (ina : InAddr) (h : portno < 65536) : ∀ n ∈ octets ina portno, n ≤ 255 := by
  have byte : ∀ b : Byte, b.toNat ≤ 255 := fun b => Nat.le_of_lt_succ b.toNat_lt
  simp only [octets, List.forall_mem_cons, List.not_mem_nil, false_imp_iff, implies_true, and_true]
  exact ⟨byte _, byte _, byte _, byte _, by omega, by omega⟩

/-- The argument is the six numbers, with commas between them. -/
theorem portArg_eq (ina : InAddr) (portno : Nat) :
    portArg ina portno = List.intercalate [44] ((octets ina portno).map Decimal.print) := by
  have digits : ∀ n, (Decimal.print n).map (fun p => if p = 46 then 44 else p) = Decimal.print n := by
    intro n
    conv_rhs => rw [← List.map_id (Decimal.print n)]
    refine List.map_congr_left fun p hp => if_neg ?_
    rintro rfl
    exact Decimal.notMem_print (by decide) hp
  have dot : (ascii ".").map (fun p => if p = 46 then 44 else p) = [44] := by decide
  have comma : ascii "," = [44] := by decide
  simp only [portArg, inet_ntoa, decimal_natCast, List.map_append, digits, dot, comma, octets, List.map_cons,
    List.map_nil, List.intercalate_cons_cons, List.intercalate_singleton, List.append_assoc]

/-- The six fields. -/
theorem splitOn_portArg (ina : InAddr) (portno : Nat) :
    (portArg ina portno).splitOn 44 = (octets ina portno).map Decimal.print := by
  rw [portArg_eq]
  refine List.splitOn_intercalate 44 (fun l hl => ?_) (by simp [octets])
  obtain ⟨n, -, rfl⟩ := List.mem_map.mp hl
  exact Decimal.notMem_print (by decide)

theorem octet_print (h : n ≤ 255) : octet (Decimal.print n) = some (UInt8.ofNat n) := by
  simp [octet, h]

/-- **Read back.** -/
theorem readPort_portArg (h : portno < 65536) :
    readPort (portArg ina portno) = some (ina, (portno : Int)) := by
  have hle := octets_le ina h
  have hmap : ((portArg ina portno).splitOn 44).mapM octet =
      some [ina.a, ina.b, ina.c, ina.d, UInt8.ofNat (portno / 256), UInt8.ofNat (portno % 256)] := by
    rw [splitOn_portArg]
    simp only [octets, List.forall_mem_cons] at hle
    obtain ⟨ha, hb, hc, hd, hh, hl, -⟩ := hle
    simp [octets, octet_print, ha, hb, hc, hd, hh, hl]
  simp only [readPort, hmap, UInt8.toNat_ofNat', Option.some.injEq, Prod.mk.injEq, true_and]
  omega

/-- Each field is three bytes long at most, and there are five commas. -/
theorem length_portArg (ina : InAddr) (h : portno < 65536) : (portArg ina portno).length ≤ 23 := by
  have hle := octets_le ina h
  have hlen : ∀ n ≤ 255, (Decimal.print n).length ≤ 3 := fun n hn =>
    (Decimal.length_print_le (by decide)).mpr (by omega)
  simp only [octets, List.forall_mem_cons] at hle
  obtain ⟨ha, hb, hc, hd, hh, hl, -⟩ := hle
  have := hlen _ ha
  have := hlen _ hb
  have := hlen _ hc
  have := hlen _ hd
  have := hlen _ hh
  have := hlen _ hl
  rw [portArg_eq]
  simp only [octets, List.map_cons, List.map_nil, List.intercalate_cons_cons,
    List.intercalate_singleton, List.length_append, List.length_singleton]
  omega

theorem ntohs_lt (p : NetPort) : ntohs p < 65536 := by
  have := p.hi.toNat_lt
  have := p.lo.toNat_lt
  rw [ntohs]
  omega

/-- What `useraddr` sends for an address that is not zero. -/
def portText (sa : Sockinetaddr) : List Byte := portArg sa.sin_addr (ntohs sa.sin_port)

theorem readPort_portText (sa : Sockinetaddr) :
    readPort (portText sa) = some (sa.sin_addr, sa.getport) := readPort_portArg (ntohs_lt sa.sin_port)

/-- **The argument of PORT.**  For an address that is not zero, `useraddr` sends six numbers of 0 to 255 in
decimal, with commas between them.  They fit into `addr` with the NUL behind them; a server reads the
address and the port in them, and so other endpoints have other arguments. -/
theorem port_round_trip {κ : Type} (N : NetKernel κ) (sa : Sockinetaddr)
    (haddr : sa.sin_addr ≠ ⟨0, 0, 0, 0⟩) :
    (∀ s : Proc Ftpbuf κ, s.base.obj.Writable → Hands N.toKernel (fun n => useraddr N n sa) s
      (commandLine (ascii "PORT") (portText sa) ++ [13, 10])) ∧
    ((portText sa).splitOn 44).length = 6 ∧
    (∀ field ∈ (portText sa).splitOn 44, ∃ n ≤ 255, field = Decimal.print n) ∧
    (portText sa).length + 1 ≤ 80 ∧
    readPort (portText sa) = some (sa.sin_addr, sa.getport) ∧
    ∀ sa', portText sa' = portText sa → sa'.sin_addr = sa.sin_addr ∧ sa'.getport = sa.getport := by
  refine ⟨fun s hw => ?_, ?_, fun field hf => ?_, ?_, readPort_portText sa, fun sa' htext => ?_⟩
  · have hsend : (fun n => useraddr N n sa) =
        fun n => sendCmd N.toKernel n (ascii "PORT") (some (portText sa)) := by
      funext n
      rw [useraddr, if_neg haddr]
      rfl
    rw [hsend]
    exact hands_sendCmd hw _ _
  · rw [portText, splitOn_portArg]
    rfl
  · rw [portText, splitOn_portArg] at hf
    obtain ⟨n, hn, rfl⟩ := List.mem_map.mp hf
    exact ⟨n, octets_le sa.sin_addr (ntohs_lt sa.sin_port) n hn, rfl⟩
  · have := length_portArg sa.sin_addr (ntohs_lt sa.sin_port)
    rw [portText]
    omega
  · have hboth := readPort_portText sa'
    rw [htext, readPort_portText sa, Option.some.injEq, Prod.mk.injEq] at hboth
    exact ⟨hboth.1.symm, hboth.2.symm⟩

/-- Port 10000 of 127.0.0.1. -/
theorem port_round_trip_loopback :
    portText (sockinetaddr 2130706433 10000) = ascii "127,0,0,1,39,16" ∧
    readPort (portText (sockinetaddr 2130706433 10000)) = some (⟨127, 0, 0, 1⟩, 10000) := by
  have haddr : (sockinetaddr 2130706433 10000).sin_addr ≠ ⟨0, 0, 0, 0⟩ := by decide
  obtain ⟨-, -, -, -, hread, -⟩ := port_round_trip (Transfer.server 5) _ haddr
  exact ⟨by decide +kernel, hread⟩

end Ftpbuf

end Socketpp
