import Ns3.Lte.AmReceiver
import Ns3.Lte.AmTransmitter

/-!
# An AM RLC entity

`LteRlcAm` of `src/lte/model/lte-rlc-am.cc`, whose transmitting and receiving sides meet in the PDUs that come in and in
the transmit opportunities.
-/

namespace Ns3.Lte

/-- `LteRlcAm`. -/
structure LteRlcAm where
  tx : AmTransmitter := {}
  rx : AmReceiver := {}

namespace LteRlcAm

/-- `DoTransmitPdcpPdu`. -/
def doTransmitPdcpPdu (p : Bytes) (rlc : LteRlcAm) : LteRlcAm := { rlc with tx := rlc.tx.transmitPdcpPdu p }

/-- `DoNotifyTxOpportunity`, with the PDU that the MAC layer is given. -/
def doNotifyTxOpportunity (limit bytes : Nat) (rlc : LteRlcAm) : Option (Option Bytes × LteRlcAm) :=
  if bytes < 4 then none
  else if rlc.rx.m_statusPduRequested ∧ !rlc.rx.m_statusProhibitTimer then
    (rlc.rx.sendStatus limit bytes).map fun (packet, rx) => (some packet, { rlc with rx })
  else (rlc.tx.notifyTxOpportunity limit bytes).map fun (packet, tx) => (packet, { rlc with tx })

/-- `DoReceivePdu`. -/
def doReceivePdu (limit : Nat) (packet : Bytes) (rlc : LteRlcAm) : Option LteRlcAm :=
  (LteRlcAmHeader.deserialize packet).bind fun header =>
    if header.m_dataControlBit = dataPdu then
      (rlc.rx.receiveData limit header packet).map fun rx => { rlc with rx }
    else if header.m_dataControlBit = controlPdu then
      (rlc.tx.receiveStatus limit header).map fun tx => { rlc with tx }
    else some rlc

/-- `ExpireReorderingTimer`, when the timer is running. -/
def expireReorderingTimer (limit : Nat) (rlc : LteRlcAm) : Option LteRlcAm :=
  if rlc.rx.m_reorderingTimer then (rlc.rx.expireReorderingTimer limit).map fun rx => { rlc with rx } else some rlc

/-- `ExpirePollRetransmitTimer`, when the timer is running. -/
def expirePollRetransmitTimer (limit : Nat) (rlc : LteRlcAm) : Option LteRlcAm :=
  if rlc.tx.m_pollRetransmitTimer then (rlc.tx.expirePollRetransmitTimer limit).map fun tx => { rlc with tx }
  else some rlc

/-- `ExpireStatusProhibitTimer`. -/
def expireStatusProhibitTimer (rlc : LteRlcAm) : LteRlcAm :=
  { rlc with rx := { rlc.rx with m_statusProhibitTimer := false } }

end LteRlcAm

end Ns3.Lte
