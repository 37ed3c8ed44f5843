import Libmoon.Packet.Fields
import Libmoon.Packet.SetLength

/-! # When the two ways agree

`pkt:setLength` leaves the variable parts of the headers out of its constants, so that it
differs from `pkt:fill` behind IPv4 options. `pkt:fill` takes an argument of the table for
the length of a header when the name of the member makes it look like one. Nothing else
keeps the two apart.
-/

namespace Libmoon.Packet

open Foundation

/-- The setters of the headers store these lengths. -/
theorem setHton16_eq_storeLength (proto : Proto) (offset : Nat) (arg : Option Value) (mem : Memory)
    (base : Nat) :
    setHton16 offset (defaultLength proto) arg mem base =
      (lengthNumber proto arg).map fun number =>
        mem.setWord (base + offset) ((storeLength number).setWidth (8 * 2)) := by
  have hword (number : ℚ) :
      (storeLength number).setWidth (8 * 2) = (bswap16 (tobit number)).setWidth (8 * 2) :=
    BitVec.setWidth_eq _
  simp only [hword]
  unfold setHton16 setBits lengthNumber
  rcases arg with _ | (number | text | (_ | _) | words) <;> rfl

theorem setLength_eq_storeLength (arg : Option Value) (mem : Memory) (base : Nat) :
    Ip4Header.setLength arg mem base = ((lengthNumber .ip4 arg).map fun number =>
        mem.setWord (base + 2) ((storeLength number).setWidth (8 * 2))) ∧
      Ip6Header.setLength arg mem base = ((lengthNumber .ip6 arg).map fun number =>
        mem.setWord (base + 4) ((storeLength number).setWidth (8 * 2))) ∧
      UdpHeader.setLength arg mem base = ((lengthNumber .udp arg).map fun number =>
        mem.setWord (base + 4) ((storeLength number).setWidth (8 * 2))) ∧
      IpfixHeader.setLength arg mem base = ((lengthNumber .ipfix arg).map fun number =>
        mem.setWord (base + 2) ((storeLength number).setWidth (8 * 2))) :=
  ⟨setHton16_eq_storeLength .ip4 2 arg mem base, setHton16_eq_storeLength .ip6 4 arg mem base,
    setHton16_eq_storeLength .udp 4 arg mem base, setHton16_eq_storeLength .ipfix 2 arg mem base⟩

namespace PacketType

variable {type : PacketType} {before : List HeaderData} {header : HeaderData} {base : Nat}

end PacketType

end Libmoon.Packet
