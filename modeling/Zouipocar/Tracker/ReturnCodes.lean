import Mathlib.Logic.Basic

/-!
# Return codes and constants

The values the tracker's functions return, and the sizes they share.
-/

namespace Zouipocar
set_option autoImplicit false

/-- The codes of `return_codes.h`, in its order. -/
inductive ATRetCode
  | ok
  | error
  | udpConnectFail
  | udpSendFail
  | gpsFailParse
  | gpsFailTime
  | gpsFailValid
  | gpsFailLatitude
  | gpsFailLatDirection
  | gpsFailLongitude
  | gpsFailLongDirection
  | gpsFailSpeed
  | gpsFailDate
  | gpsFailCourse
  | gpsTimeSynced
  | gpsTimeNotSynced
  | ipstateInitial
  | ipstateStart
  | ipstateConfig
  | ipstateInd
  | ipstateGprsact
  | ipstateStatus
  | ipstateTcpConnecting
  | ipstateUdpConnecting
  | ipstateClose
  | ipstateConnectOk
  | ipstatePdpDeact
  | netstateNotRegisteredNotSearching
  | netstateRegistered
  | netstateNotRegisteredSearching
  | netstateRegistrationDenied
  | netstateUnknown
  | smsSendFail
  | ntpUnknownFail
  | ntpNoResponse
  | ntpTcpStackBusy
  | ntpServerNotFound
  | ntpPdpContextFailed
deriving DecidableEq, Repr

/-- `NMEA_SENTENCE_MAX_SIZE` -/
def nmeaSentenceMaxSize : Nat := 82

/-- The `int` of a code. -/
def ATRetCode.value (code : ATRetCode) : Int := code.ctorIdx

end Zouipocar
