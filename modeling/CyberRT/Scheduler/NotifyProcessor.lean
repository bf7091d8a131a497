import CyberRT.Croutine.CRoutine

namespace CyberRT

/-- Where a call of `SchedulerClassic::NotifyProcessor` stands that has found its coroutine: the two reads of
the state, the update flag, and `ClassicContext::Notify`. -/
inductive NotifyPc
  | readDataWait
  | readIoWait
  | setUpdateFlag
  | notify
  deriving DecidableEq

/-- One access of `NotifyProcessor` to the coroutine. -/
def NotifyPc.act (cr : CRoutine) : NotifyPc → CRoutine × NotifyPc
  | .readDataWait => (cr, if cr.state = .dataWait then .setUpdateFlag else .readIoWait)
  | .readIoWait => (cr, if cr.state = .ioWait then .setUpdateFlag else .notify)
  | .setUpdateFlag => (cr.setUpdateFlag, .notify)
  | .notify => (cr, .notify)

end CyberRT
